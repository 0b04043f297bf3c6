import ConcurrencyAnalyzer.TaskConcurrency.Flood

namespace ConcurrencyAnalyzer.TaskConcurrency

open Program Library ThreadCompletion

section Walks

variable {kills : FloodKills} {block : Nat}

-- Whether no restart is among as many instructions from `first` on.
def namedPast (kills : FloodKills) (block : Nat) : Nat → Nat → Bool → Bool
  | 0, _, named => named
  | count + 1, first, named =>
      namedPast kills block count (first + 1) (named && ⟨block, first⟩ ∉ kills.restarts)

-- No kill is active at as many instructions from `first` on.
def Clear (kills : FloodKills) (block count first : Nat) (named : Bool) : Prop :=
  ∀ k < count, kills.endsAt (namedPast kills block k first named) ⟨block, first + k⟩ = false

theorem namedPast_succ (count first : Nat) (named : Bool) :
    namedPast kills block (count + 1) first named =
      (namedPast kills block count first named && ⟨block, first + count⟩ ∉ kills.restarts) := by
  induction count generalizing first named with
  | zero => rfl
  | succ count ih =>
      unfold namedPast
      have hnext : first + (count + 1) = first + 1 + count := by omega
      rw [ih, hnext]

theorem namedPast_le {lower named : Bool} (hle : lower ≤ named) (count first : Nat) :
    namedPast kills block count first lower ≤ namedPast kills block count first named := by
  induction count generalizing first lower named with
  | zero => exact hle
  | succ count ih =>
      refine ih ?_ (first + 1)
      exact inf_le_inf_right _ hle

theorem endsAt_of_le {lower named : Bool} (hle : lower ≤ named) {point : Point}
    (h : kills.endsAt named point = false) : kills.endsAt lower point = false := by
  cases lower with
  | false =>
      simp only [FloodKills.endsAt, Bool.or_eq_false_iff] at h ⊢
      exact ⟨h.1, rfl⟩
  | true => exact (Bool.eq_true_of_true_le hle) ▸ h

theorem endsAlong_of_le {lower named : Bool} (hle : lower ≤ named) {edge : Nat × Nat}
    (h : kills.endsAlong named edge = false) : kills.endsAlong lower edge = false := by
  cases lower with
  | false =>
      simp only [FloodKills.endsAlong, Bool.or_eq_false_iff] at h ⊢
      exact ⟨h.1, rfl⟩
  | true => exact (Bool.eq_true_of_true_le hle) ▸ h

-- Unnamed, a thread runs at least as far.
theorem Clear.of_le {count first : Nat} {lower named : Bool} (hle : lower ≤ named)
    (h : Clear kills block count first named) : Clear kills block count first lower :=
  fun k hk => endsAt_of_le (namedPast_le hle k first) (h k hk)

theorem clear_succ_iff (count first : Nat) (named : Bool) :
    Clear kills block (count + 1) first named ↔
      kills.endsAt named ⟨block, first⟩ = false ∧
        Clear kills block count (first + 1) (named && ⟨block, first⟩ ∉ kills.restarts) := by
  have hnext (k : Nat) : first + (k + 1) = first + 1 + k := by omega
  constructor
  · intro h
    refine ⟨h 0 (Nat.succ_pos _), fun k hk => ?_⟩
    have hk := h (k + 1) (Nat.succ_lt_succ hk)
    rwa [hnext] at hk
  · rintro ⟨hfirst, hrest⟩ k hk
    cases k with
    | zero => exact hfirst
    | succ k =>
        rw [hnext]
        exact hrest k (Nat.lt_of_succ_lt_succ hk)

theorem walk_eq_iff {remaining first : Nat} {named past : Bool} :
    kills.walk block remaining first named = (none, past) ↔
      Clear kills block remaining first named ∧ past = namedPast kills block remaining first named := by
  induction remaining generalizing first named with
  | zero =>
      simp only [FloodKills.walk, namedPast, Prod.mk.injEq, true_and]
      exact ⟨fun h => ⟨fun _ hk => absurd hk (Nat.not_lt_zero _), h.symm⟩, fun h => h.2.symm⟩
  | succ remaining ih =>
      rw [clear_succ_iff]
      unfold FloodKills.walk namedPast
      cases hends : kills.endsAt named ⟨block, first⟩ with
      | true => simp
      | false => simp [ih]

theorem le_of_walk {remaining first stop : Nat} {named past : Bool}
    (h : kills.walk block remaining first named = (some stop, past)) : first ≤ stop := by
  induction remaining generalizing first named with
  | zero => simp [FloodKills.walk] at h
  | succ remaining ih =>
      unfold FloodKills.walk at h
      split at h
      · simp only [Prod.mk.injEq, Option.some.injEq] at h
        exact h.1.le
      · exact Nat.le_of_succ_le (ih h)

theorem before_walk_iff {remaining first count : Nat} {named : Bool} (hlt : count < remaining) :
    Reach.before ⟨block, first + count⟩ (kills.walk block remaining first named).1 = true ↔
      Clear kills block (count + 1) first named := by
  induction remaining generalizing first named count with
  | zero => omega
  | succ remaining ih =>
      rw [clear_succ_iff]
      unfold FloodKills.walk
      cases hends : kills.endsAt named ⟨block, first⟩ with
      | true => simp [Reach.before]
      | false =>
          simp only [Bool.false_eq_true, if_false, true_and]
          cases count with
          | zero =>
              have hpast : Clear kills block 0 (first + 1) (named && ⟨block, first⟩ ∉ kills.restarts) :=
                fun _ hk => absurd hk (Nat.not_lt_zero _)
              refine iff_of_true ?_ hpast
              generalize hwalk : kills.walk block remaining (first + 1)
                (named && ⟨block, first⟩ ∉ kills.restarts) = walked
              obtain ⟨stop, past⟩ := walked
              cases stop with
              | none => rfl
              | some stop =>
                  have hle := le_of_walk hwalk
                  simp only [Reach.before, Option.all_some, decide_eq_true_eq]
                  omega
          | succ count =>
              have hnext : first + (count + 1) = first + 1 + count := by omega
              rw [hnext]
              exact ih (Nat.lt_of_succ_lt_succ hlt)

end Walks

section Segments

variable {graph : FlowGraph} {kills : FloodKills} {start : Option Point} {block first : Nat}
  {named flag : Bool} {place : Point}

-- A place a thread gets to inside a block when it is walked from `first`.
structure Within (graph : FlowGraph) (kills : FloodKills) (block first : Nat) (named : Bool)
    (place : Point) (flag : Bool) : Prop where
  here : place.block = block
  past : first ≤ place.index
  inside : place.index < graph.length block
  clear : Clear kills block (place.index - first + 1) first named
  flagged : flag = namedPast kills block (place.index - first) first named

theorem Within.begins (hinside : first < graph.length block)
    (hends : kills.endsAt named ⟨block, first⟩ = false) :
    Within graph kills block first named ⟨block, first⟩ named where
  here := rfl
  past := le_rfl
  inside := hinside
  clear := by
    rw [Nat.sub_self, clear_succ_iff]
    exact ⟨hends, fun _ hk => absurd hk (Nat.not_lt_zero _)⟩
  flagged := by rw [Nat.sub_self, namedPast]

theorem Clear.snoc {count first : Nat} (h : Clear kills block count first named)
    (hlast : kills.endsAt (namedPast kills block count first named) ⟨block, first + count⟩ = false) :
    Clear kills block (count + 1) first named := by
  intro k hk
  by_cases heq : k = count
  · exact heq ▸ hlast
  · exact h k (by omega)

theorem Within.onward {index : Nat} (h : Within graph kills block first named ⟨block, index⟩ flag)
    (hinside : index + 1 < graph.length block)
    (hends : kills.endsAt (flag && ⟨block, index⟩ ∉ kills.restarts) ⟨block, index + 1⟩ = false) :
    Within graph kills block first named ⟨block, index + 1⟩
      (flag && ⟨block, index⟩ ∉ kills.restarts) := by
  have hpast : first ≤ index := h.past
  have hcount : index + 1 - first = index - first + 1 := by omega
  have hindex : first + (index - first) = index := by omega
  have hflag : namedPast kills block (index - first + 1) first named =
      (flag && ⟨block, index⟩ ∉ kills.restarts) := by
    rw [namedPast_succ, hindex, h.flagged]
  refine ⟨rfl, Nat.le_succ_of_le hpast, hinside, ?_, ?_⟩
  · rw [hcount]
    refine h.clear.snoc ?_
    have hnext : first + (index - first + 1) = index + 1 := by omega
    rw [hflag, hnext]
    exact hends
  · rw [hcount, hflag]

-- The end of a block that is walked whole is left along the edges no kill is active on.
theorem Within.leaves (h : Within graph kills block first named (graph.last block) flag)
    {successor : Nat} (hsuccessor : successor ∈ graph.successors block)
    (hedge : kills.endsAlong (flag && graph.last block ∉ kills.restarts) (block, successor) = false) :
    (successor, flag && graph.last block ∉ kills.restarts) ∈
      leaveFrom graph kills block first named := by
  have hpast : first ≤ graph.length block - 1 := h.past
  have hinside : graph.length block - 1 < graph.length block := h.inside
  have hcount : graph.length block - first = graph.length block - 1 - first + 1 := by omega
  have hindex : first + (graph.length block - 1 - first) = graph.length block - 1 := by omega
  have hwalk : walkFrom graph kills block first named =
      (none, flag && graph.last block ∉ kills.restarts) := by
    unfold walkFrom
    rw [hcount, walk_eq_iff, namedPast_succ, hindex, h.flagged]
    exact ⟨h.clear, rfl⟩
  unfold leaveFrom
  rw [hwalk]
  refine List.mem_map_of_mem (List.mem_filter.mpr ⟨hsuccessor, ?_⟩)
  rw [hedge]
  rfl

theorem Within.runs (h : Within graph kills block first named place flag)
    (hbegins : kills.endsAt named ⟨block, first⟩ = false →
      Runs graph kills start ⟨block, first⟩ named) :
    Runs graph kills start place flag := by
  obtain ⟨_, index⟩ := place
  obtain ⟨rfl, hpast, hinside, hclear, rfl⟩ := h
  dsimp only at hpast hinside hclear ⊢
  obtain ⟨count, rfl⟩ := Nat.exists_eq_add_of_le hpast
  rw [Nat.add_sub_cancel_left] at hclear ⊢
  induction count with
  | zero => exact hbegins (hclear 0 Nat.one_pos)
  | succ count ih =>
      have hlast := hclear (count + 1) (by omega)
      have hbefore := ih (by omega) (by omega) (by omega) fun k hk => hclear k (by omega)
      rw [namedPast_succ] at hlast ⊢
      exact hbefore.move (.onward hinside) (fun h => h) hlast

-- What is left for was gone to along an edge with no active kill.
theorem mem_leaveFrom {successor : Nat} {lower : Bool}
    (h : (successor, lower) ∈ leaveFrom graph kills block first named) :
    successor ∈ graph.successors block ∧ kills.endsAlong lower (block, successor) = false ∧
      Clear kills block (graph.length block - first) first named ∧
      lower = namedPast kills block (graph.length block - first) first named := by
  unfold leaveFrom at h
  split at h
  · rename_i past hwalk
    obtain ⟨other, hother, heq⟩ := List.mem_map.mp h
    rw [Prod.mk.injEq] at heq
    obtain ⟨rfl, rfl⟩ := heq
    obtain ⟨hsuccessor, hedge⟩ := List.mem_filter.mp hother
    refine ⟨hsuccessor, by simpa using hedge, walk_eq_iff.mp hwalk⟩
  · exact absurd h List.not_mem_nil

theorem runs_of_leaveFrom {successor : Nat} {lower : Bool}
    (h : (successor, lower) ∈ leaveFrom graph kills block first named)
    (hinside : first < graph.length block)
    (hbegins : kills.endsAt named ⟨block, first⟩ = false →
      Runs graph kills start ⟨block, first⟩ named)
    (hends : kills.endsAt lower ⟨successor, 0⟩ = false) :
    Runs graph kills start ⟨successor, 0⟩ lower := by
  obtain ⟨hsuccessor, hedge, hclear, rfl⟩ := mem_leaveFrom h
  obtain ⟨⟨_, unwinds⟩, hmem, rfl⟩ := List.mem_map.mp hsuccessor
  obtain ⟨count, hcount⟩ : ∃ count, graph.length block - first = count + 1 :=
    ⟨graph.length block - first - 1, by omega⟩
  have hindex : graph.length block - 1 - first = count := by omega
  have hlast : first + count = graph.length block - 1 := by omega
  have hwithin : Within graph kills block first named (graph.last block)
      (namedPast kills block count first named) := by
    refine ⟨rfl, ?_, ?_, ?_, ?_⟩
    · simp only [FlowGraph.last]
      omega
    · simp only [FlowGraph.last]
      omega
    · simp only [FlowGraph.last]
      rw [hindex, ← hcount]
      exact hclear
    · simp only [FlowGraph.last]
      rw [hindex]
  rw [hcount, namedPast_succ, hlast] at hedge hends ⊢
  refine (hwithin.runs hbegins).move (.edge hmem) (fun hkilled => ?_) hends
  exact Bool.false_ne_true (hedge.symm.trans hkilled)

end Segments

section Entered

variable {graph : FlowGraph} {kills : FloodKills} {start : Option graph.Place} {block : Nat}
  {named flag : Bool} {place : Point}

-- A block is entered at its top, named or not.
def Entered (graph : FlowGraph) (kills : FloodKills) (start : Option graph.Place) :
    Nat → Bool → Prop :=
  Worklist.Reaches (enter graph kills)
    (firstEntered graph kills (start.map (·.toPoint))).reverse

theorem firstEntered_lt (pair : Nat × Bool)
    (h : pair ∈ firstEntered graph kills (start.map (·.toPoint))) :
    pair.1 < graph.blocks.length := by
  unfold firstEntered at h
  cases start with
  | none =>
      rw [Option.map_none, List.mem_singleton] at h
      exact h ▸ graph.entryExists
  | some start =>
      dsimp only [Option.map_some] at h
      split at h
      · rename_i normal hnormal
        rw [List.mem_singleton] at h
        exact h ▸ (FlowGraph.mem_edges_lt (FlowGraph.normalDest_eq_some hnormal).2).2
      · exact FlowGraph.successor_lt (mem_leaveFrom h).1

theorem Entered.lt (h : Entered graph kills start block named) : block < graph.blocks.length := by
  induction h with
  | root hmem => exact firstEntered_lt _ (List.mem_reverse.mp hmem)
  | step _ hnext hmem _ =>
      cases hnext
      exact FlowGraph.successor_lt (mem_leaveFrom hmem).1

theorem Entered.runs (h : Entered graph kills start block named)
    (hends : kills.endsAt named ⟨block, 0⟩ = false) :
    Runs graph kills (start.map (·.toPoint)) ⟨block, 0⟩ named := by
  induction h with
  | @root block named hmem =>
      rw [List.mem_reverse] at hmem
      cases start with
      | none =>
          rw [Option.map_none, firstEntered, List.mem_singleton, Prod.mk.injEq] at hmem
          obtain ⟨rfl, rfl⟩ := hmem
          exact .entry rfl hends
      | some start =>
          unfold firstEntered at hmem
          dsimp only [Option.map_some] at hmem
          split at hmem
          · rename_i normal hnormal
            rw [List.mem_singleton, Prod.mk.injEq] at hmem
            obtain ⟨rfl, rfl⟩ := hmem
            exact .returned rfl hnormal hends
          · rename_i hnormal
            by_cases hlast : start.index + 1 < graph.length start.block
            · refine runs_of_leaveFrom hmem hlast (fun hclear => ?_) hends
              exact .past rfl hnormal (.onward hlast) (fun h => h) hclear
            · have hinside := start.inside
              obtain ⟨hsuccessor, hedge, _, hlower⟩ := mem_leaveFrom hmem
              obtain ⟨⟨_, unwinds⟩, hedges, rfl⟩ := List.mem_map.mp hsuccessor
              have hzero : graph.length start.block - (start.index + 1) = 0 := by omega
              rw [hzero, namedPast] at hlower
              subst hlower
              have hhere : graph.last start.block = start.toPoint := by
                obtain ⟨⟨block, index⟩, inside⟩ := start
                simp only [FlowGraph.last, Point.mk.injEq, true_and]
                dsimp only at hlast hinside
                omega
              refine .past rfl hnormal (hhere ▸ FlowGraph.Takes.edge hedges) ?_ hends
              simpa only [Killed, Bool.not_eq_true] using hedge
  | @step block named next successor lower hentered hnext hmem ih =>
      cases hnext
      have hinside := FlowGraph.length_pos_iff.mpr (Entered.lt hentered)
      exact runs_of_leaveFrom hmem hinside ih hends

theorem Entered.of_start {begun : graph.Place} (hstart : start = some begun)
    (hnormal : graph.normalDest begun.toPoint = none)
    (hmem : (block, named) ∈ leaveFrom graph kills begun.block (begun.index + 1) true) :
    Entered graph kills start block named := by
  subst hstart
  refine .root (List.mem_reverse.mpr ?_)
  rw [Option.map_some, firstEntered, hnormal]
  exact hmem

theorem normalDest_eq_none (begun : graph.Place) (h : begun.index + 1 < graph.length begun.block) :
    graph.normalDest begun.toPoint = none := by
  unfold FlowGraph.normalDest
  rw [if_neg (by omega)]

-- A thread runs where walks from just past its start, or of the blocks it enters, get to.
theorem within_of_runs (h : Runs graph kills (start.map (·.toPoint)) place flag) :
    (∃ begun, start = some begun ∧
        Within graph kills begun.block (begun.index + 1) true place flag) ∨
      ∃ named, Entered graph kills start place.block named ∧
        Within graph kills place.block 0 named place flag := by
  have htop {block : Nat} {named : Bool} (hentered : Entered graph kills start block named)
      (hends : kills.endsAt named ⟨block, 0⟩ = false) :
      ∃ lower, Entered graph kills start block lower ∧
        Within graph kills block 0 lower ⟨block, 0⟩ named :=
    ⟨named, hentered, .begins (FlowGraph.length_pos_iff.mpr hentered.lt) hends⟩
  induction h with
  | entry hstart hends =>
      have hentered : Entered graph kills start 0 true := by
        refine .root (List.mem_reverse.mpr ?_)
        rw [hstart]
        exact List.mem_singleton_self _
      exact .inr (htop hentered hends)
  | @returned begun normal hstart hnormal hends =>
      have hentered : Entered graph kills start normal true := by
        refine .root (List.mem_reverse.mpr ?_)
        rw [hstart, firstEntered, hnormal]
        exact List.mem_singleton_self _
      exact .inr (htop hentered hends)
  | @past begun other move hstart hnormal htakes hnot hends =>
      obtain ⟨begun, hbegun, rfl⟩ := Option.map_eq_some_iff.mp hstart
      generalize hplace : begun.toPoint = place at htakes
      cases htakes with
      | @onward block index hlt =>
          refine .inl ⟨begun, hbegun, ?_⟩
          rw [hplace]
          exact .begins hlt hends
      | @edge block successor unwinds hedge =>
          refine .inr (htop (.of_start hbegun hnormal ?_) hends)
          have hpos := FlowGraph.length_pos_iff.mpr (FlowGraph.mem_edges_lt hedge).1
          have hzero : graph.length block - (graph.length block - 1 + 1) = 0 := by omega
          rw [hplace]
          unfold leaveFrom walkFrom
          simp only [FlowGraph.last, hzero, FloodKills.walk]
          refine List.mem_map_of_mem (List.mem_filter.mpr ⟨List.mem_map_of_mem hedge, ?_⟩)
          simpa only [Killed, Bool.not_eq_true, Bool.not_eq_eq_eq_not, Bool.not_true] using hnot
  | @move before after move flag _ htakes hnot hends ih =>
      rcases ih with ⟨begun, hstart, hwithin⟩ | ⟨named, hentered, hwithin⟩
      · cases htakes with
        | @onward block index hlt =>
            obtain rfl : block = begun.block := hwithin.here
            exact .inl ⟨begun, hstart, hwithin.onward hlt hends⟩
        | @edge block successor unwinds hedge =>
            obtain rfl : block = begun.block := hwithin.here
            have hpast : begun.index + 1 ≤ graph.length begun.block - 1 := hwithin.past
            have hnormal := normalDest_eq_none begun (by omega)
            refine .inr (htop (.of_start hstart hnormal ?_) hends)
            refine hwithin.leaves (List.mem_map_of_mem hedge) ?_
            simpa only [Killed, Bool.not_eq_true] using hnot
      · cases htakes with
        | onward hlt => exact .inr ⟨named, hentered, hwithin.onward hlt hends⟩
        | @edge block successor unwinds hedge =>
            have hlast : Within graph kills block 0 named (graph.last block) flag := hwithin
            refine .inr (htop (hentered.step rfl ?_) hends)
            refine hlast.leaves (List.mem_map_of_mem hedge) ?_
            simpa only [Killed, Bool.not_eq_true] using hnot

theorem runs_iff :
    Runs graph kills (start.map (·.toPoint)) place flag ↔
      (∃ begun, start = some begun ∧
        Within graph kills begun.block (begun.index + 1) true place flag) ∨
      ∃ named, Entered graph kills start place.block named ∧
        Within graph kills place.block 0 named place flag := by
  refine ⟨within_of_runs, ?_⟩
  rintro (⟨begun, rfl, hwithin⟩ | ⟨named, hentered, hwithin⟩)
  · refine hwithin.runs fun hends => ?_
    have hpast := hwithin.past
    have hinside := hwithin.inside
    have hlt : begun.index + 1 < graph.length begun.block := by omega
    exact .past rfl (normalDest_eq_none begun hlt) (.onward hlt) (fun h => h) hends
  · exact hwithin.runs hentered.runs

end Entered

section Exact

variable {graph : FlowGraph} {kills : FloodKills} {start : Option graph.Place}

theorem leaveFrom_of_clear {block first successor : Nat} {named : Bool}
    (hsuccessor : successor ∈ graph.successors block)
    (hclear : Clear kills block (graph.length block - first) first named)
    (hedge : kills.endsAlong (namedPast kills block (graph.length block - first) first named)
      (block, successor) = false) :
    (successor, namedPast kills block (graph.length block - first) first named) ∈
      leaveFrom graph kills block first named := by
  have hwalk : walkFrom graph kills block first named =
      (none, namedPast kills block (graph.length block - first) first named) :=
    walk_eq_iff.mpr ⟨hclear, rfl⟩
  unfold leaveFrom
  rw [hwalk]
  refine List.mem_map_of_mem (List.mem_filter.mpr ⟨hsuccessor, ?_⟩)
  rw [hedge]
  rfl

theorem enter_weakens : Worklist.Weakens (enter graph kills) := by
  intro block lower named next hle hnext found hfound successor past hmem
  cases hnext
  cases hfound
  obtain ⟨hsuccessor, hedge, hclear, rfl⟩ := mem_leaveFrom hmem
  have hpast : namedPast kills block (graph.length block - 0) 0 lower ≤
      namedPast kills block (graph.length block - 0) 0 named := namedPast_le hle _ 0
  exact ⟨_, hpast, leaveFrom_of_clear hsuccessor (hclear.of_le hle) (endsAlong_of_le hpast hedge)⟩

-- The search marks the blocks entered, each as unnamed as it is ever entered.
theorem reachedNamed_exact :
    (∀ block named, reachedNamed graph kills (start.map (·.toPoint)) block = some named →
      Entered graph kills start block named) ∧
    ∀ block named, Entered graph kills start block named →
      ∃ lower ≤ named, reachedNamed graph kills (start.map (·.toPoint)) block = some lower := by
  have hrank : StrictMono Bool.toNat := by decide
  have hheight (named : Bool) : named.toNat < 2 := Nat.lt_succ_of_le (Bool.toNat_le named)
  have hkeys : ∀ block named next, enter graph kills block named = some next →
      ∀ pair ∈ next, pair.1 ∈ Finset.range graph.blocks.length := by
    intro block named next hnext pair hmem
    cases hnext
    exact Finset.mem_range.mpr (FlowGraph.successor_lt (mem_leaveFrom hmem).1)
  have hwidth : ∀ block named next, enter graph kills block named = some next →
      next.length ≤ (graph.successors block).length := by
    intro block named next hnext
    cases hnext
    unfold leaveFrom
    split
    · rw [leave, List.length_map]
      exact List.length_filter_le _ _
    · exact Nat.zero_le _
  have hroots : ∀ pair ∈ (firstEntered graph kills (start.map (·.toPoint))).reverse,
      pair.1 ∈ Finset.range graph.blocks.length :=
    fun pair hmem => Finset.mem_range.mpr (firstEntered_lt pair (List.mem_reverse.mp hmem))
  have hfuel : (firstEntered graph kills (start.map (·.toPoint))).reverse.length +
      ∑ block ∈ Finset.range graph.blocks.length, 2 * (1 + (graph.successors block).length) ≤
      floodFuel graph (firstEntered graph kills (start.map (·.toPoint))) := by
    rw [List.length_reverse, floodFuel]
  obtain ⟨result, hrun, hsound, hcovers⟩ := Worklist.run_sound_and_covers hrank hheight hkeys hwidth hroots
    enter_weakens (fun _ _ => Option.some_ne_none _) hfuel
  have hreached : reachedNamed graph kills (start.map (·.toPoint)) = result := by
    unfold reachedNamed
    dsimp only
    rw [hrun, Option.getD_some]
  rw [hreached]
  exact ⟨hsound, hcovers⟩

variable {place : Point}

theorem before_walkFrom_iff {block first : Nat} {named : Bool} (hhere : place.block = block)
    (hpast : first ≤ place.index) (hinside : place.index < graph.length place.block) :
    Reach.before place (walkFrom graph kills block first named).1 = true ↔
      Within graph kills block first named place
        (namedPast kills block (place.index - first) first named) := by
  obtain ⟨_, index⟩ := place
  dsimp only at hhere hpast hinside ⊢
  subst hhere
  obtain ⟨count, rfl⟩ := Nat.exists_eq_add_of_le hpast
  unfold walkFrom
  rw [Nat.add_sub_cancel_left, before_walk_iff (by omega)]
  refine ⟨fun hclear => ⟨rfl, hpast, hinside, ?_, ?_⟩, fun hwithin => ?_⟩
  · rwa [Nat.add_sub_cancel_left]
  · rw [Nat.add_sub_cancel_left]
  · have hclear := hwithin.clear
    rwa [Nat.add_sub_cancel_left] at hclear

theorem fromStart_iff (hinside : place.index < graph.length place.block) :
    (flood graph kills (start.map (·.toPoint))).fromStart place = true ↔
      ∃ begun, start = some begun ∧ Within graph kills begun.block (begun.index + 1) true place
        (namedPast kills begun.block (place.index - (begun.index + 1)) (begun.index + 1) true) := by
  unfold Reach.fromStart flood
  cases start with
  | none => simp
  | some begun =>
      simp only [Option.map_some, Option.any_some, Bool.and_eq_true, decide_eq_true_eq,
        Option.bind_some, Option.some.injEq, exists_eq_left']
      constructor
      · rintro ⟨⟨hhere, hpast⟩, hbefore⟩
        exact (before_walkFrom_iff hhere hpast hinside).mp hbefore
      · intro hwithin
        refine ⟨⟨hwithin.here, hwithin.past⟩, ?_⟩
        exact (before_walkFrom_iff hwithin.here hwithin.past hinside).mpr hwithin

theorem enteredBefore_iff (hinside : place.index < graph.length place.block) :
    (flood graph kills (start.map (·.toPoint))).enteredBefore place = true ↔
      ∃ named, reachedNamed graph kills (start.map (·.toPoint)) place.block = some named ∧
        Within graph kills place.block 0 named place
          (namedPast kills place.block place.index 0 named) := by
  unfold Reach.enteredBefore flood
  dsimp only
  cases hreached : reachedNamed graph kills (start.map (·.toPoint)) place.block with
  | none => simp
  | some named =>
      simp only [Option.map_some, Option.any_some, Option.some.injEq, exists_eq_left']
      exact before_walkFrom_iff rfl (Nat.zero_le _) hinside

theorem stillNamed_eq (reach : Reach) (hrestarts : reach.restarts = kills.restarts)
    (block count first : Nat) (named : Bool) :
    reach.stillNamed block count first named = namedPast kills block count first named := by
  have hfalse (count first : Nat) : namedPast kills block count first false = false := by
    induction count generalizing first with
    | zero => rfl
    | succ count ih => exact ih (first + 1)
  induction count generalizing first named with
  | zero => rfl
  | succ count ih =>
      unfold Reach.stillNamed namedPast
      cases named with
      | false => exact (hfalse count (first + 1)).symm
      | true => rw [if_pos rfl, ih, hrestarts, Bool.true_and]

theorem Within.lower {block first : Nat} {lower named flag : Bool} (hle : lower ≤ named)
    (h : Within graph kills block first named place flag) :
    Within graph kills block first lower place
      (namedPast kills block (place.index - first) first lower) :=
  ⟨h.here, h.past, h.inside, h.clear.of_le hle, rfl⟩

theorem contains_iff (hinside : place.index < graph.length place.block) :
    (flood graph kills (start.map (·.toPoint))).contains place = true ↔
      ∃ named, Runs graph kills (start.map (·.toPoint)) place named := by
  obtain ⟨hsound, hcovers⟩ := @reachedNamed_exact graph kills start
  simp only [Reach.contains, Bool.or_eq_true, enteredBefore_iff hinside, fromStart_iff hinside]
  constructor
  · rintro (⟨named, hreached, hwithin⟩ | ⟨begun, hstart, hwithin⟩)
    · exact ⟨_, runs_iff.mpr (.inr ⟨named, hsound _ _ hreached, hwithin⟩)⟩
    · exact ⟨_, runs_iff.mpr (.inl ⟨begun, hstart, hwithin⟩)⟩
  · rintro ⟨flag, hruns⟩
    rcases runs_iff.mp hruns with ⟨begun, hstart, hwithin⟩ | ⟨named, hentered, hwithin⟩
    · exact .inr ⟨begun, hstart, hwithin.flagged ▸ hwithin⟩
    · obtain ⟨lower, hle, hreached⟩ := hcovers _ _ hentered
      exact .inl ⟨lower, hreached, hwithin.lower hle⟩

theorem namedAt_iff (hinside : place.index < graph.length place.block) :
    (flood graph kills (start.map (·.toPoint))).namedAt place = true ↔
      (∃ named, Runs graph kills (start.map (·.toPoint)) place named) ∧
        ∀ named, Runs graph kills (start.map (·.toPoint)) place named → named = true := by
  obtain ⟨hsound, hcovers⟩ := @reachedNamed_exact graph kills start
  have himplies (a b : Bool) : (!a || b) = true ↔ (a = true → b = true) := by
    cases a <;> simp
  have hstart (begun : graph.Place) (hbegun : start = some begun) :
      (flood graph kills (start.map (·.toPoint))).namedFromStart place =
        namedPast kills place.block (place.index - (begun.index + 1)) (begun.index + 1) true := by
    unfold Reach.namedFromStart
    rw [hbegun]
    exact stillNamed_eq _ rfl _ _ _ _
  have htop (named : Bool)
      (hreached : reachedNamed graph kills (start.map (·.toPoint)) place.block = some named) :
      (flood graph kills (start.map (·.toPoint))).namedFromTop place =
        namedPast kills place.block place.index 0 named := by
    unfold Reach.namedFromTop flood
    dsimp only
    rw [hreached]
    exact stillNamed_eq _ rfl _ _ _ _
  simp only [Reach.namedAt, Bool.and_eq_true, contains_iff hinside, himplies,
    enteredBefore_iff hinside, fromStart_iff hinside, and_assoc]
  refine and_congr_right fun _ => ⟨?_, ?_⟩
  · rintro ⟨hfromStart, hfromTop⟩ flag hruns
    rcases runs_iff.mp hruns with ⟨begun, hbegun, hwithin⟩ | ⟨named, hentered, hwithin⟩
    · have hnamed := hfromStart ⟨begun, hbegun, hwithin.flagged ▸ hwithin⟩
      rw [hstart begun hbegun, hwithin.here] at hnamed
      exact hwithin.flagged.trans hnamed
    · obtain ⟨lower, hle, hreached⟩ := hcovers _ _ hentered
      have hnamed := hfromTop ⟨lower, hreached, hwithin.lower hle⟩
      rw [htop lower hreached] at hnamed
      have hpast : namedPast kills place.block place.index 0 lower ≤
          namedPast kills place.block place.index 0 named := namedPast_le hle _ 0
      exact hwithin.flagged.trans (Bool.eq_true_of_true_le (hnamed ▸ hpast))
  · intro hall
    constructor
    · rintro ⟨begun, hbegun, hwithin⟩
      rw [hstart begun hbegun, hwithin.here]
      exact hall _ (runs_iff.mpr (.inl ⟨begun, hbegun, hwithin⟩))
    · rintro ⟨named, hreached, hwithin⟩
      rw [htop named hreached]
      exact hall _ (runs_iff.mpr (.inr ⟨named, hsound _ _ hreached, hwithin⟩))

theorem flood_exact (graph : FlowGraph) (kills : FloodKills) (start : Option graph.Place)
    (point : graph.Place) :
    ((flood graph kills (start.map (·.toPoint))).contains point.toPoint = true ↔
      ∃ named, Runs graph kills (start.map (·.toPoint)) point.toPoint named) ∧
    ((flood graph kills (start.map (·.toPoint))).namedAt point.toPoint = true ↔
      (∃ named, Runs graph kills (start.map (·.toPoint)) point.toPoint named) ∧
        ∀ named, Runs graph kills (start.map (·.toPoint)) point.toPoint named → named = true) :=
  ⟨contains_iff point.inside, namedAt_iff point.inside⟩

end Exact

end ConcurrencyAnalyzer.TaskConcurrency
