import ConcurrencyAnalyzer.Library.Settle
import Mathlib.Algebra.BigOperators.Group.List.Basic
import Mathlib.Algebra.Order.BigOperators.Group.List
import Mathlib.Algebra.Order.Group.Nat
import Mathlib.Order.WithBot
import Mathlib.Algebra.GroupWithZero.Nat

namespace ConcurrencyAnalyzer.Library

universe u v

-- A forward analysis of a graph. What reaches a block is what all its predecessors leave, and `⊤`
-- stands for a block nothing is known of yet.
structure Dataflow (β : Type u) (α : Type v) where
  blocks : List β
  predecessors : β → List β
  transfer : β → α → α
  entry : β
  initial : α

structure BlockState (α : Type v) where
  input : WithTop α
  output : WithTop α

namespace Dataflow

abbrev States (β : Type u) (α : Type v) : Type (max u v) := β → BlockState α

variable {β : Type u} {α : Type v} [SemilatticeInf α]

def meet (flow : Dataflow β α) (states : States β α) (block : β) : WithTop α :=
  ((flow.predecessors block).map fun predecessor => (states predecessor).output).foldr (· ⊓ ·) ⊤

-- A state is above another when it knows less of every block.
def Above (states other : States β α) : Prop :=
  ∀ block, (other block).input ≤ (states block).input ∧ (other block).output ≤ (states block).output

theorem above_refl (states : States β α) : Above states states :=
  fun _ => ⟨le_rfl, le_rfl⟩

theorem Above.trans {states middle other : States β α} (h : Above states middle)
    (hrest : Above middle other) : Above states other :=
  fun block => ⟨(hrest block).1.trans (h block).1, (hrest block).2.trans (h block).2⟩

theorem Above.antisymm {states other : States β α} (h : Above states other)
    (hback : Above other states) : states = other := by
  funext block
  have hinput := le_antisymm (hback block).1 (h block).1
  have houtput := le_antisymm (hback block).2 (h block).2
  cases hstate : states block
  cases hother : other block
  simp_all

theorem foldr_inf_mono {lhs rhs : β → WithTop α} (blocks : List β)
    (h : ∀ block, lhs block ≤ rhs block) :
    (blocks.map lhs).foldr (· ⊓ ·) ⊤ ≤ (blocks.map rhs).foldr (· ⊓ ·) ⊤ := by
  induction blocks with
  | nil => exact le_rfl
  | cons block blocks ih => exact inf_le_inf (h block) ih

theorem foldr_inf_le (states : β → WithTop α) {blocks : List β} {block : β} (h : block ∈ blocks) :
    (blocks.map states).foldr (· ⊓ ·) ⊤ ≤ states block := by
  induction blocks with
  | nil => exact absurd h List.not_mem_nil
  | cons first blocks ih =>
      rcases List.mem_cons.mp h with rfl | h
      · exact inf_le_left
      · exact inf_le_right.trans (ih h)

theorem meet_le {flow : Dataflow β α} (states : States β α) {block predecessor : β}
    (h : predecessor ∈ flow.predecessors block) :
    flow.meet states block ≤ (states predecessor).output :=
  foldr_inf_le (fun predecessor => (states predecessor).output) h

theorem meet_mono {flow : Dataflow β α} {states other : States β α} (h : Above states other)
    (block : β) : flow.meet other block ≤ flow.meet states block :=
  foldr_inf_mono (flow.predecessors block) fun predecessor => (h predecessor).2

-- What holds between the rounds: no block knows more than its predecessors let it.
structure Descending (flow : Dataflow β α) (states : States β α) : Prop where
  entry : (states flow.entry).input = (flow.initial : α)
  input : ∀ block, block ≠ flow.entry → flow.meet states block ≤ (states block).input
  output : ∀ block, (states block).input.map (flow.transfer block) ≤ (states block).output

section Visit

variable [DecidableEq β] (flow : Dataflow β α)

def incoming (states : States β α) (block : β) : WithTop α :=
  if block = flow.entry then (states block).input else flow.meet states block

def visit (states : States β α) (block : β) : States β α :=
  match flow.incoming states block with
  | none => states
  | some known => Function.update states block ⟨known, (flow.transfer block known : α)⟩

def round (states : States β α) : States β α :=
  flow.blocks.foldl flow.visit states

def start : States β α := fun block =>
  ⟨if block = flow.entry then (flow.initial : α) else ⊤, ⊤⟩

variable {flow}

-- A visit brings a block in line with its predecessors, also where it has nothing to write.
theorem Descending.visit_eq {states : States β α} (h : flow.Descending states) (block : β) :
    flow.visit states block = Function.update states block
      ⟨flow.incoming states block, (flow.incoming states block).map (flow.transfer block)⟩ := by
  unfold visit
  cases hknown : flow.incoming states block with
  | coe known => rfl
  | top =>
      have hinput : (states block).input = ⊤ := by
        by_cases hentry : block = flow.entry
        · simpa [incoming, hentry] using hknown
        · have hmeet := h.input block hentry
          rw [incoming, if_neg hentry] at hknown
          rwa [hknown, top_le_iff] at hmeet
      have houtput : (states block).output = ⊤ := by
        have := h.output block
        rwa [hinput, WithTop.map_top, top_le_iff] at this
      have hstate : states block = ⟨⊤, ⊤⟩ := by
        cases hblock : states block
        simp_all
      show states = Function.update states block ⟨⊤, ⊤⟩
      rw [← hstate, Function.update_eq_self]

theorem Descending.incoming_le {states : States β α} (h : flow.Descending states) (block : β) :
    flow.incoming states block ≤ (states block).input := by
  unfold incoming
  split
  · exact le_rfl
  · exact h.input block ‹_›

variable (hmono : ∀ block, Monotone (flow.transfer block))

include hmono

theorem Descending.above_visit {states : States β α} (h : flow.Descending states) (block : β) :
    Above states (flow.visit states block) := by
  rw [h.visit_eq block]
  intro other
  by_cases hother : other = block
  · subst hother
    rw [Function.update_self]
    refine ⟨h.incoming_le other, ?_⟩
    calc (flow.incoming states other).map (flow.transfer other)
        ≤ (states other).input.map (flow.transfer other) :=
          (hmono other).withTop_map (h.incoming_le other)
      _ ≤ (states other).output := h.output other
  · rw [Function.update_of_ne hother]
    exact ⟨le_rfl, le_rfl⟩

theorem Descending.visit {states : States β α} (h : flow.Descending states) (block : β) :
    flow.Descending (flow.visit states block) where
  entry := by
    rw [h.visit_eq block]
    by_cases hentry : flow.entry = block
    · subst hentry
      simp [incoming, h.entry]
    · rw [Function.update_of_ne hentry, h.entry]
  input other hother := by
    have habove := h.above_visit hmono block
    refine (meet_mono habove other).trans ?_
    rw [h.visit_eq block]
    by_cases hblock : other = block
    · subst hblock
      rw [Function.update_self, incoming, if_neg hother]
    · rw [Function.update_of_ne hblock]
      exact h.input other hother
  output other := by
    rw [h.visit_eq block]
    by_cases hblock : other = block
    · subst hblock
      rw [Function.update_self]
    · rw [Function.update_of_ne hblock]
      exact h.output other

theorem Descending.foldl_visit {states : States β α} (h : flow.Descending states) (blocks : List β) :
    flow.Descending (blocks.foldl flow.visit states) ∧
      Above states (blocks.foldl flow.visit states) := by
  induction blocks generalizing states with
  | nil => exact ⟨h, above_refl states⟩
  | cons block blocks ih =>
      obtain ⟨hdescending, habove⟩ := ih (h.visit hmono block)
      exact ⟨hdescending, (h.above_visit hmono block).trans habove⟩

-- A run of visits that ends where it started changed nothing on the way.
theorem Descending.visit_eq_self_of_foldl {states : States β α} (h : flow.Descending states)
    {blocks : List β} (hsame : blocks.foldl flow.visit states = states) {block : β}
    (hblock : block ∈ blocks) : flow.visit states block = states := by
  induction blocks generalizing states with
  | nil => exact absurd hblock List.not_mem_nil
  | cons first blocks ih =>
      have hfirst : flow.visit states first = states := by
        refine Above.antisymm ?_ (h.above_visit hmono first)
        have hrest := ((h.visit hmono first).foldl_visit hmono blocks).2
        rwa [← List.foldl_cons, hsame] at hrest
      rcases List.mem_cons.mp hblock with rfl | hblock
      · exact hfirst
      · refine ih h ?_ hblock
        rw [List.foldl_cons, hfirst] at hsame
        exact hsame

end Visit

theorem descending_start [DecidableEq β] (flow : Dataflow β α) : flow.Descending flow.start where
  entry := by simp [start]
  input block hblock := by simp [start, hblock]
  output _ := by simp [start]

theorem foldl_visit_of_notMem [DecidableEq β] {flow : Dataflow β α} (blocks : List β)
    (states : States β α) {block : β} (h : block ∉ blocks) :
    blocks.foldl flow.visit states block = states block := by
  induction blocks generalizing states with
  | nil => rfl
  | cons first blocks ih =>
      rw [List.mem_cons, not_or] at h
      rw [List.foldl_cons, ih _ h.2, Dataflow.visit]
      cases flow.incoming states first with
      | top => rfl
      | coe known => exact Function.update_of_ne h.1 _ _

-- Where every visit has settled: each block is in line with its predecessors.
structure Solved (flow : Dataflow β α) (states : States β α) : Prop where
  entry : (states flow.entry).input = (flow.initial : α)
  input : ∀ block ∈ flow.blocks, block ≠ flow.entry →
    (states block).input = flow.meet states block
  output : ∀ block ∈ flow.blocks,
    (states block).output = (states block).input.map (flow.transfer block)

section Solve

variable [DecidableEq β] [DecidableEq α] (flow : Dataflow β α)

instance : DecidableEq (BlockState α) := fun lhs rhs =>
  decidable_of_iff (lhs.input = rhs.input ∧ lhs.output = rhs.output) (by
    cases lhs; cases rhs; simp)

def unchanged (states other : States β α) : Bool :=
  flow.blocks.all fun block => states block = other block

def solve (fuel : Nat) : States β α :=
  settle flow.unchanged flow.round fuel flow.start

end Solve

section Rank

variable {flow : Dataflow β α}

-- A height for the elements below `most`, and one more for `⊤`.
def height (rank : α → Nat) (most : α) : WithTop α → Nat
  | none => rank most + 1
  | some known => rank known

def weight (flow : Dataflow β α) (rank : α → Nat) (most : α) (states : States β α) : Nat :=
  (flow.blocks.map fun block =>
    height rank most (states block).input + height rank most (states block).output).sum

-- Every known state is below `most`.
def Below (most : α) (states : States β α) : Prop :=
  ∀ block, ∀ known : α,
    ((states block).input = known → known ≤ most) ∧ ((states block).output = known → known ≤ most)

theorem below_foldr_inf {most known : α} {outputs : List (WithTop α)}
    (h : ∀ output ∈ outputs, ∀ value : α, output = value → value ≤ most)
    (hknown : outputs.foldr (· ⊓ ·) ⊤ = (known : WithTop α)) : known ≤ most := by
  induction outputs generalizing known with
  | nil => exact absurd hknown WithTop.top_ne_coe
  | cons output outputs ih =>
      rw [List.foldr_cons] at hknown
      cases output with
      | top =>
          rw [top_inf_eq] at hknown
          exact ih (fun other hother => h other (List.mem_cons_of_mem _ hother)) hknown
      | coe value =>
          have hle : (known : WithTop α) ≤ value := hknown ▸ inf_le_left
          exact (WithTop.coe_le_coe.mp hle).trans (h value List.mem_cons_self value rfl)

theorem below_start [DecidableEq β] {most : α} (hinitial : flow.initial ≤ most) :
    Below most flow.start := by
  intro block known
  refine ⟨fun hinput => ?_, fun houtput => absurd houtput WithTop.top_ne_coe⟩
  by_cases hentry : block = flow.entry
  · rw [start, if_pos hentry, WithTop.coe_inj] at hinput
    exact hinput ▸ hinitial
  · rw [start, if_neg hentry] at hinput
    exact absurd hinput WithTop.top_ne_coe

theorem Below.visit [DecidableEq β] {most : α} {states : States β α}
    (h : Below most states) (htransfer : ∀ block, ∀ known ≤ most, flow.transfer block known ≤ most)
    (block : β) : Below most (flow.visit states block) := by
  unfold Dataflow.visit
  cases hincoming : flow.incoming states block with
  | top => exact h
  | coe known =>
      have hknown : known ≤ most := by
        rw [incoming] at hincoming
        split at hincoming
        · exact (h block known).1 hincoming
        · refine below_foldr_inf (fun output houtput value hvalue => ?_) hincoming
          obtain ⟨predecessor, _, rfl⟩ := List.mem_map.mp houtput
          exact (h predecessor value).2 hvalue
      intro other value
      by_cases hother : other = block
      · subst hother
        simp only [Function.update_self]
        exact ⟨fun hvalue => WithTop.coe_inj.mp hvalue ▸ hknown,
          fun hvalue => WithTop.coe_inj.mp hvalue ▸ htransfer other known hknown⟩
      · simp only [Function.update_of_ne hother]
        exact h other value

theorem Below.foldl_visit [DecidableEq β] {most : α} {states : States β α} (h : Below most states)
    (htransfer : ∀ block, ∀ known ≤ most, flow.transfer block known ≤ most) (blocks : List β) :
    Below most (blocks.foldl flow.visit states) := by
  induction blocks generalizing states with
  | nil => exact h
  | cons block blocks ih => exact ih (h.visit htransfer block)

variable {rank : α → Nat} {most : α} (hrank : StrictMono rank)

include hrank

theorem height_mono {known other : WithTop α} (h : known ≤ other)
    (hknown : ∀ value : α, known = value → value ≤ most) :
    height rank most known ≤ height rank most other := by
  cases known with
  | top => rw [top_le_iff.mp h]
  | coe value =>
      have hrankMost := hrank.monotone (hknown value rfl)
      cases other with
      | top => exact Nat.le_succ_of_le hrankMost
      | coe larger => exact hrank.monotone (WithTop.coe_le_coe.mp h)

theorem height_lt {known other : WithTop α} (h : known < other)
    (hknown : ∀ value : α, known = value → value ≤ most) :
    height rank most known < height rank most other := by
  cases known with
  | top => exact absurd h not_top_lt
  | coe value =>
      have hrankMost := hrank.monotone (hknown value rfl)
      cases other with
      | top => exact Nat.lt_succ_of_le hrankMost
      | coe larger => exact hrank (WithTop.coe_lt_coe.mp h)

theorem weight_lt {states other : States β α} (habove : Above states other)
    (hbelow : Below most other) {block : β} (hblock : block ∈ flow.blocks)
    (hne : states block ≠ other block) :
    flow.weight rank most other < flow.weight rank most states := by
  have hle (block : β) :
      height rank most (other block).input + height rank most (other block).output ≤
        height rank most (states block).input + height rank most (states block).output :=
    Nat.add_le_add
      (height_mono hrank (habove block).1 fun value => (hbelow block value).1)
      (height_mono hrank (habove block).2 fun value => (hbelow block value).2)
  refine List.sum_lt_sum _ _ (fun block _ => hle block) ⟨block, hblock, ?_⟩
  have hdiffer : (other block).input ≠ (states block).input ∨
      (other block).output ≠ (states block).output := by
    by_contra hsame
    rw [not_or, not_not, not_not] at hsame
    apply hne
    cases hstate : states block
    cases hother : other block
    simp_all
  rcases hdiffer with hinput | houtput
  · have hlt := height_lt hrank (lt_of_le_of_ne (habove block).1 hinput)
      fun value => (hbelow block value).1
    have hrest := height_mono hrank (habove block).2 fun value => (hbelow block value).2
    omega
  · have hlt := height_lt hrank (lt_of_le_of_ne (habove block).2 houtput)
      fun value => (hbelow block value).2
    have hrest := height_mono hrank (habove block).1 fun value => (hbelow block value).1
    omega

end Rank

section Solution

variable [DecidableEq β] [DecidableEq α] {flow : Dataflow β α}

theorem round_eq_of_unchanged {states : States β α}
    (h : flow.unchanged states (flow.round states) = true) : flow.round states = states := by
  funext block
  by_cases hblock : block ∈ flow.blocks
  · have := List.all_eq_true.mp h block hblock
    exact (of_decide_eq_true this).symm
  · exact foldl_visit_of_notMem flow.blocks states hblock

section Rounds

variable {rank : α → Nat} {most : α} (hrank : StrictMono rank)
  (hmono : ∀ block, Monotone (flow.transfer block)) (hinitial : flow.initial ≤ most)
  (htransfer : ∀ block, ∀ known ≤ most, flow.transfer block known ≤ most)

include hmono htransfer in
omit [DecidableEq α] in
theorem round_bounded {states : States β α} (h : flow.Descending states ∧ Below most states) :
    flow.Descending (flow.round states) ∧ Below most (flow.round states) :=
  ⟨(h.1.foldl_visit hmono flow.blocks).1, h.2.foldl_visit htransfer flow.blocks⟩

include hrank hmono htransfer in
theorem weight_round_lt {states : States β α} (h : flow.Descending states ∧ Below most states)
    (hchanged : flow.unchanged states (flow.round states) = false) :
    flow.weight rank most (flow.round states) < flow.weight rank most states := by
  obtain ⟨block, hblock, hne⟩ := List.all_eq_false.mp hchanged
  exact weight_lt hrank (h.1.foldl_visit hmono flow.blocks).2
    (round_bounded hmono htransfer h).2 hblock (by simpa using hne)

variable {fuel : Nat} (hfuel : flow.weight rank most flow.start ≤ fuel)

include hrank hmono hinitial htransfer hfuel

theorem solve_ends : Ends flow.unchanged flow.round flow.start (flow.solve fuel) := by
  have hround (states : States β α) (h : flow.Descending states ∧ Below most states) :
      flow.Descending (flow.round states) ∧ Below most (flow.round states) :=
    round_bounded hmono htransfer h
  exact settle_ends (flow.weight rank most) hround (fun _ => weight_round_lt hrank hmono htransfer)
    ⟨descending_start flow, below_start hinitial⟩ hfuel

-- The rounds settle, each block then in line with its predecessors.
theorem solved_solve : flow.Solved (flow.solve fuel) := by
  have hround (states : States β α) (h : flow.Descending states ∧ Below most states) :
      flow.Descending (flow.round states) ∧ Below most (flow.round states) :=
    round_bounded hmono htransfer h
  have hstart : flow.Descending flow.start ∧ Below most flow.start :=
    ⟨descending_start flow, below_start hinitial⟩
  have hfixed : flow.round (flow.solve fuel) = flow.solve fuel :=
    settle_fixed (flow.weight rank most) hround (fun _ _ => round_eq_of_unchanged)
      (fun _ => weight_round_lt hrank hmono htransfer) hstart hfuel
  have hdescending : flow.Descending (flow.solve fuel) :=
    (settle_invariant hround fuel hstart).1
  have hvisited (block : β) (hblock : block ∈ flow.blocks) :
      flow.solve fuel block = ⟨flow.incoming (flow.solve fuel) block,
        (flow.incoming (flow.solve fuel) block).map (flow.transfer block)⟩ := by
    have hvisit := hdescending.visit_eq_self_of_foldl hmono hfixed hblock
    rw [hdescending.visit_eq block] at hvisit
    have := congrFun hvisit block
    rw [Function.update_self] at this
    exact this.symm
  refine ⟨hdescending.entry, fun block hblock hentry => ?_, fun block hblock => ?_⟩
  · have hinput := congrArg BlockState.input (hvisited block hblock)
    rw [hinput, incoming, if_neg hentry]
  · rw [hvisited block hblock]

end Rounds

end Solution

-- What the states owe to the paths of the graph.
section Paths

-- The values that the paths from the entry bring to a block.
inductive Brings (flow : Dataflow β α) : β → α → Prop
  | entry : Brings flow flow.entry flow.initial
  | step {predecessor block value} : Brings flow predecessor value →
      predecessor ∈ flow.predecessors block → Brings flow block (flow.transfer predecessor value)

-- A meet of some of the values, at least one.
inductive MeetOf (brought : α → Prop) : α → Prop
  | value {value} : brought value → MeetOf brought value
  | meet {value other} : MeetOf brought value → MeetOf brought other → MeetOf brought (value ⊓ other)

theorem MeetOf.map {brought image : α → Prop} {transfer : α → α}
    (hmeet : ∀ value other, transfer (value ⊓ other) = transfer value ⊓ transfer other)
    (himage : ∀ value, brought value → image (transfer value)) {known : α}
    (h : MeetOf brought known) : MeetOf image (transfer known) := by
  induction h with
  | value hvalue => exact .value (himage _ hvalue)
  | meet _ _ ih ihother =>
      rw [hmeet]
      exact .meet ih ihother

theorem MeetOf.congr {brought other : α → Prop} (hsame : ∀ value, brought value → other value)
    {known : α} (h : MeetOf brought known) : MeetOf other known := by
  induction h with
  | value hvalue => exact .value (hsame _ hvalue)
  | meet _ _ ih ihother => exact .meet ih ihother

-- What a block passes on of the values it is brought.
def Passes (flow : Dataflow β α) (block : β) (value : α) : Prop :=
  ∃ brought, flow.Brings block brought ∧ flow.transfer block brought = value

-- Each known state is what some of the paths to it leave in common.
structure Witnessed (flow : Dataflow β α) (states : States β α) : Prop where
  input : ∀ block, ∀ known : α, (states block).input = known → MeetOf (flow.Brings block) known
  output : ∀ block, ∀ known : α, (states block).output = known → MeetOf (flow.Passes block) known

variable {flow : Dataflow β α}

theorem meetOf_foldr_inf {brought : α → Prop} {outputs : List (WithTop α)}
    (h : ∀ output ∈ outputs, ∀ value : α, output = value → MeetOf brought value) {known : α}
    (hknown : outputs.foldr (· ⊓ ·) ⊤ = (known : WithTop α)) : MeetOf brought known := by
  induction outputs generalizing known with
  | nil => exact absurd hknown WithTop.top_ne_coe
  | cons output outputs ih =>
      obtain ⟨hfirst, hrest⟩ := List.forall_mem_cons.mp h
      rw [List.foldr_cons] at hknown
      cases output with
      | top => exact ih hrest (by rwa [top_inf_eq] at hknown)
      | coe value =>
          cases hmeet : outputs.foldr (· ⊓ ·) ⊤ with
          | top =>
              rw [hmeet, inf_top_eq, WithTop.coe_inj] at hknown
              exact hknown ▸ hfirst value rfl
          | coe other =>
              rw [hmeet, ← WithTop.coe_inf, WithTop.coe_inj] at hknown
              exact hknown ▸ .meet (hfirst value rfl) (ih hrest hmeet)

theorem Witnessed.incoming [DecidableEq β] {states : States β α} (h : flow.Witnessed states)
    {block : β} {known : α} (hknown : flow.incoming states block = known) :
    MeetOf (flow.Brings block) known := by
  unfold Dataflow.incoming at hknown
  by_cases hentry : block = flow.entry
  · rw [if_pos hentry] at hknown
    exact h.input block known hknown
  · rw [if_neg hentry] at hknown
    refine meetOf_foldr_inf (fun output houtput value hvalue => ?_) hknown
    obtain ⟨predecessor, hpredecessor, rfl⟩ := List.mem_map.mp houtput
    refine (h.output predecessor value hvalue).congr fun passed hpassed => ?_
    obtain ⟨brought, hbrought, rfl⟩ := hpassed
    exact hbrought.step hpredecessor

theorem witnessed_start [DecidableEq β] (flow : Dataflow β α) : flow.Witnessed flow.start where
  input block known hknown := by
    by_cases hentry : block = flow.entry
    · rw [start, if_pos hentry, WithTop.coe_inj] at hknown
      subst hentry
      exact hknown ▸ .value .entry
    · rw [start, if_neg hentry] at hknown
      exact absurd hknown WithTop.top_ne_coe
  output _ _ hknown := absurd hknown WithTop.top_ne_coe

variable (hmeet : ∀ block value other,
  flow.transfer block (value ⊓ other) = flow.transfer block value ⊓ flow.transfer block other)

include hmeet

theorem Witnessed.visit [DecidableEq β] {states : States β α} (h : flow.Witnessed states)
    (block : β) : flow.Witnessed (flow.visit states block) := by
  unfold Dataflow.visit
  cases hincoming : flow.incoming states block with
  | top => exact h
  | coe known =>
      have hbrought := h.incoming hincoming
      have hpassed : MeetOf (flow.Passes block) (flow.transfer block known) :=
        hbrought.map (hmeet block) fun value hvalue => ⟨value, hvalue, rfl⟩
      show flow.Witnessed (Function.update states block ⟨known, (flow.transfer block known : α)⟩)
      constructor
      · intro other value hvalue
        by_cases hother : other = block
        · subst hother
          rw [Function.update_self, WithTop.coe_inj] at hvalue
          exact hvalue ▸ hbrought
        · rw [Function.update_of_ne hother] at hvalue
          exact h.input other value hvalue
      · intro other value hvalue
        by_cases hother : other = block
        · subst hother
          rw [Function.update_self, WithTop.coe_inj] at hvalue
          exact hvalue ▸ hpassed
        · rw [Function.update_of_ne hother] at hvalue
          exact h.output other value hvalue

theorem Witnessed.foldl_visit [DecidableEq β] {states : States β α} (h : flow.Witnessed states)
    (blocks : List β) : flow.Witnessed (blocks.foldl flow.visit states) := by
  induction blocks generalizing states with
  | nil => exact h
  | cons block blocks ih => exact ih (h.visit hmeet block)

theorem witnessed_solve [DecidableEq β] [DecidableEq α] (fuel : Nat) :
    flow.Witnessed (flow.solve fuel) :=
  settle_invariant (fun _ h => h.foldl_visit hmeet flow.blocks) fuel (witnessed_start flow)

end Paths

end Dataflow

end ConcurrencyAnalyzer.Library
