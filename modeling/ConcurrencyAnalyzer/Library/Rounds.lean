import ConcurrencyAnalyzer.Library.Dataflow

namespace ConcurrencyAnalyzer.Library.Dataflow

universe u v w

variable {β : Type u} {α : Type v}

section Within

variable [DecidableEq β]

-- Each round visits one block before the other.
def Before (flow : Dataflow β α) (predecessor block : β) : Prop :=
  flow.blocks.idxOf predecessor < flow.blocks.idxOf block

-- The values of the paths that go back in the order of the visits at most some number of times, and
-- never to the entry.
inductive BringsWithin (flow : Dataflow β α) : Nat → β → α → Prop
  | entry (returns : Nat) : BringsWithin flow returns flow.entry flow.initial
  | onward {returns predecessor block value} : BringsWithin flow returns predecessor value →
      predecessor ∈ flow.predecessors block → block ≠ flow.entry → predecessor ∈ flow.blocks →
      flow.Before predecessor block →
      BringsWithin flow returns block (flow.transfer predecessor value)
  | back {returns predecessor block value} : BringsWithin flow returns predecessor value →
      predecessor ∈ flow.predecessors block → block ≠ flow.entry → predecessor ∈ flow.blocks →
      ¬flow.Before predecessor block →
      BringsWithin flow (returns + 1) block (flow.transfer predecessor value)

variable {flow : Dataflow β α}

theorem BringsWithin.mono {returns more : Nat} {block : β} {value : α}
    (h : flow.BringsWithin returns block value) (hle : returns ≤ more) :
    flow.BringsWithin more block value := by
  induction h generalizing more with
  | entry => exact .entry more
  | onward _ hmem hentry hblocks hbefore ih => exact (ih hle).onward hmem hentry hblocks hbefore
  | back _ hmem hentry hblocks hbefore ih =>
      obtain ⟨fewer, rfl⟩ : ∃ fewer, more = fewer + 1 := ⟨more - 1, by omega⟩
      exact (ih (by omega)).back hmem hentry hblocks hbefore

theorem BringsWithin.brings {returns : Nat} {block : β} {value : α}
    (h : flow.BringsWithin returns block value) : flow.Brings block value := by
  induction h with
  | entry => exact .entry
  | onward _ hmem _ _ _ ih => exact ih.step hmem
  | back _ hmem _ _ _ ih => exact ih.step hmem

theorem bringsWithin_entry {returns : Nat} {value : α} :
    flow.BringsWithin returns flow.entry value ↔ value = flow.initial := by
  constructor
  · intro h
    generalize hblock : flow.entry = block at h
    cases h with
    | entry => rfl
    | onward _ _ hentry _ _ => exact absurd hblock.symm hentry
    | back _ _ hentry _ _ => exact absurd hblock.symm hentry
  · rintro rfl
    exact .entry returns

-- What a block passes on after it has been visited some number of times.
def PassesAfter (flow : Dataflow β α) (visits : Nat) (block : β) (value : α) : Prop :=
  ∃ returns < visits, ∃ brought, flow.BringsWithin returns block brought ∧
    flow.transfer block brought = value

theorem passesAfter_succ {returns : Nat} {block : β} {value : α} :
    flow.PassesAfter (returns + 1) block value ↔
      ∃ brought, flow.BringsWithin returns block brought ∧ flow.transfer block brought = value := by
  constructor
  · rintro ⟨fewer, hlt, brought, hbrought, hvalue⟩
    exact ⟨brought, hbrought.mono (Nat.le_of_lt_succ hlt), hvalue⟩
  · rintro ⟨brought, hbrought, hvalue⟩
    exact ⟨returns, returns.lt_succ_self, brought, hbrought, hvalue⟩

-- In the round after `returns` of them, the blocks before this one have been visited once more.
theorem bringsWithin_iff {returns : Nat} {block : β} {value : α} (hentry : block ≠ flow.entry) :
    flow.BringsWithin returns block value ↔
      ∃ predecessor ∈ flow.predecessors block, predecessor ∈ flow.blocks ∧
        ((flow.Before predecessor block ∧ flow.PassesAfter (returns + 1) predecessor value) ∨
          (¬flow.Before predecessor block ∧ flow.PassesAfter returns predecessor value)) := by
  constructor
  · intro h
    cases h with
    | entry => exact absurd rfl hentry
    | @onward _ predecessor _ brought hbrought hmem _ hblocks hbefore =>
        exact ⟨predecessor, hmem, hblocks,
          .inl ⟨hbefore, returns, returns.lt_succ_self, brought, hbrought, rfl⟩⟩
    | @back fewer predecessor _ brought hbrought hmem _ hblocks hbefore =>
        exact ⟨predecessor, hmem, hblocks,
          .inr ⟨hbefore, fewer, fewer.lt_succ_self, brought, hbrought, rfl⟩⟩
  · rintro ⟨predecessor, hmem, hblocks, ⟨hbefore, fewer, hlt, brought, hbrought, rfl⟩ |
      ⟨hbefore, fewer, hlt, brought, hbrought, rfl⟩⟩
    · exact (hbrought.mono (by omega)).onward hmem hentry hblocks hbefore
    · exact (hbrought.back hmem hentry hblocks hbefore).mono hlt

end Within

-- What is known is what all the values have in common, and nothing where there is no value.
structure IsMeet [SemilatticeInf α] (brought : α → Prop) (known : WithTop α) : Prop where
  below : ∀ value, brought value → known ≤ value
  meet : ∀ value : α, known = value → MeetOf brought value

section Meets

variable [SemilatticeInf α] {brought other : α → Prop} {known : WithTop α}

theorem le_of_meetOf {value : α} (h : MeetOf brought value) {lower : WithTop α}
    (hlower : ∀ value, brought value → lower ≤ value) : lower ≤ value := by
  induction h with
  | value hvalue => exact hlower _ hvalue
  | meet _ _ ih ihother =>
      rw [WithTop.coe_inf]
      exact le_inf ih ihother

theorem exists_of_meetOf {value : α} (h : MeetOf brought value) : ∃ value, brought value := by
  induction h with
  | value hvalue => exact ⟨_, hvalue⟩
  | meet _ _ ih _ => exact ih

theorem IsMeet.unique (h : IsMeet brought known) {known' : WithTop α} (h' : IsMeet brought known') :
    known = known' := by
  have hle {first second : WithTop α} (hfirst : IsMeet brought first)
      (hsecond : IsMeet brought second) : first ≤ second := by
    cases second with
    | top => exact le_top
    | coe value => exact le_of_meetOf (hsecond.meet value rfl) hfirst.below
  exact le_antisymm (hle h h') (hle h' h)

theorem IsMeet.congr (h : IsMeet brought known) (hsame : ∀ value, brought value ↔ other value) :
    IsMeet other known where
  below value hvalue := h.below value ((hsame value).mpr hvalue)
  meet value hvalue := (h.meet value hvalue).congr fun value => (hsame value).mp

theorem IsMeet.map (h : IsMeet brought known) {transfer : α → α}
    (hmeet : ∀ value other, transfer (value ⊓ other) = transfer value ⊓ transfer other) :
    IsMeet (fun passed => ∃ value, brought value ∧ transfer value = passed)
      (known.map transfer) where
  below := by
    rintro _ ⟨value, hvalue, rfl⟩
    have hmono : Monotone transfer := by
      intro first second hle
      rw [← inf_eq_left, ← hmeet, inf_eq_left.mpr hle]
    exact hmono.withTop_map (h.below value hvalue)
  meet passed hpassed := by
    cases known with
    | top => exact absurd hpassed WithTop.top_ne_coe
    | coe value =>
        rw [WithTop.map_coe, WithTop.coe_inj] at hpassed
        subst hpassed
        exact (h.meet value rfl).map hmeet fun value hvalue => ⟨value, hvalue, rfl⟩

theorem isMeet_top (h : ∀ value, ¬brought value) : IsMeet brought ⊤ where
  below value hvalue := absurd hvalue (h value)
  meet _ hvalue := absurd hvalue WithTop.top_ne_coe

theorem IsMeet.inf (h : IsMeet brought known) {known' : WithTop α} (h' : IsMeet other known') :
    IsMeet (fun value => brought value ∨ other value) (known ⊓ known') where
  below value hvalue := by
    rcases hvalue with hvalue | hvalue
    · exact inf_le_left.trans (h.below value hvalue)
    · exact inf_le_right.trans (h'.below value hvalue)
  meet value hvalue := by
    have hleft {value : α} (hvalue : known = value) :
        MeetOf (fun value => brought value ∨ other value) value :=
      (h.meet value hvalue).congr fun _ => Or.inl
    have hright {value : α} (hvalue : known' = value) :
        MeetOf (fun value => brought value ∨ other value) value :=
      (h'.meet value hvalue).congr fun _ => Or.inr
    cases known with
    | top => exact hright (by rwa [top_inf_eq] at hvalue)
    | coe first =>
        cases known' with
        | top => exact hleft (by rwa [inf_top_eq] at hvalue)
        | coe second =>
            rw [← WithTop.coe_inf, WithTop.coe_inj] at hvalue
            exact hvalue ▸ .meet (hleft rfl) (hright rfl)

theorem isMeet_foldr {brought : β → α → Prop} {outputs : β → WithTop α} (blocks : List β)
    (h : ∀ block ∈ blocks, IsMeet (brought block) (outputs block)) :
    IsMeet (fun value => ∃ block ∈ blocks, brought block value)
      ((blocks.map outputs).foldr (· ⊓ ·) ⊤) := by
  induction blocks with
  | nil => exact isMeet_top (by simp)
  | cons block blocks ih =>
      obtain ⟨hfirst, hrest⟩ := List.forall_mem_cons.mp h
      refine (hfirst.inf (ih hrest)).congr fun value => ?_
      simp only [List.mem_cons, exists_eq_or_imp]

end Meets

-- Some blocks have been visited once more than the others.
section Levels

variable [SemilatticeInf α] [DecidableEq β] {flow : Dataflow β α}

-- Each block has been visited as often as counted, and knows what the paths bring to it that the
-- visits so far could follow.
structure Levelled (flow : Dataflow β α) (visits : β → Nat) (states : States β α) : Prop where
  entry : (states flow.entry).input = (flow.initial : α)
  input : ∀ block ∈ flow.blocks, ∀ returns, visits block = returns + 1 →
    IsMeet (flow.BringsWithin returns block) (states block).input
  output : ∀ block ∈ flow.blocks, IsMeet (flow.PassesAfter (visits block) block) (states block).output
  outside : ∀ block, block ∉ flow.blocks → (states block).output = ⊤

theorem levelled_start (flow : Dataflow β α) : Levelled flow (fun _ => 0) flow.start where
  entry := by simp [start]
  input _ _ _ h := absurd h (Nat.succ_ne_zero _).symm
  output _ _ := isMeet_top fun value ⟨_, hlt, _⟩ => Nat.not_lt_zero _ hlt
  outside _ _ := rfl

theorem Levelled.congr {visits visits' : β → Nat} {states : States β α}
    (h : Levelled flow visits states) (hsame : ∀ block ∈ flow.blocks, visits block = visits' block) :
    Levelled flow visits' states where
  entry := h.entry
  input block hblock returns hreturns :=
    h.input block hblock returns ((hsame block hblock).trans hreturns)
  output block hblock := hsame block hblock ▸ h.output block hblock
  outside := h.outside

-- A visit when the blocks before this one have been visited in this round, and no other.
theorem Levelled.incoming {visits : β → Nat} {states : States β α} (h : Levelled flow visits states)
    {block : β} {returns : Nat}
    (hvisits : ∀ predecessor ∈ flow.blocks,
      (flow.Before predecessor block → visits predecessor = returns + 1) ∧
        (¬flow.Before predecessor block → visits predecessor = returns)) :
    IsMeet (flow.BringsWithin returns block) (flow.incoming states block) := by
  unfold Dataflow.incoming
  split
  · rename_i hentry
    subst hentry
    rw [h.entry]
    refine ⟨?_, ?_⟩
    · intro value hvalue
      rw [bringsWithin_entry.mp hvalue]
    · intro value hvalue
      rw [← WithTop.coe_inj.mp hvalue]
      exact .value (.entry returns)
  · rename_i hentry
    have hpredecessor (predecessor : β) :
        IsMeet (fun value => predecessor ∈ flow.blocks ∧
          flow.PassesAfter (visits predecessor) predecessor value) (states predecessor).output := by
      by_cases hblocks : predecessor ∈ flow.blocks
      · exact (h.output predecessor hblocks).congr fun value => by simp [hblocks]
      · rw [h.outside predecessor hblocks]
        exact isMeet_top fun value hvalue => hblocks hvalue.1
    refine (isMeet_foldr (flow.predecessors block) fun predecessor _ =>
      hpredecessor predecessor).congr fun value => ?_
    rw [bringsWithin_iff hentry]
    refine exists_congr fun predecessor => and_congr_right fun _ => and_congr_right fun hblocks => ?_
    obtain ⟨hbefore, hafter⟩ := hvisits predecessor hblocks
    by_cases hearlier : flow.Before predecessor block
    · simp [hearlier, hbefore hearlier]
    · simp [hearlier, hafter hearlier]

variable (hmeet : ∀ block value other,
  flow.transfer block (value ⊓ other) = flow.transfer block value ⊓ flow.transfer block other)

omit [DecidableEq β] in
theorem transfer_mono_of_inf
    (hmeet : ∀ block value other,
      flow.transfer block (value ⊓ other) = flow.transfer block value ⊓ flow.transfer block other)
    (block : β) : Monotone (flow.transfer block) := by
  intro first second hle
  rw [← inf_eq_left, ← hmeet, inf_eq_left.mpr hle]

include hmeet

theorem Levelled.visit {visits : β → Nat} {states : States β α} (h : Levelled flow visits states)
    (hdescending : flow.Descending states) {block : β} (hblock : block ∈ flow.blocks) {returns : Nat}
    (hvisits : ∀ predecessor ∈ flow.blocks,
      (flow.Before predecessor block → visits predecessor = returns + 1) ∧
        (¬flow.Before predecessor block → visits predecessor = returns)) :
    Levelled flow (Function.update visits block (returns + 1)) (flow.visit states block) := by
  have hincoming := h.incoming hvisits
  have hentry : (flow.visit states block flow.entry).input = (flow.initial : α) :=
    (hdescending.visit (transfer_mono_of_inf hmeet) block).entry
  rw [hdescending.visit_eq block] at hentry ⊢
  refine ⟨hentry, ?_, ?_, ?_⟩
  · intro other hother count hcount
    by_cases hsame : other = block
    · subst hsame
      rw [Function.update_self] at hcount ⊢
      obtain rfl : returns = count := by omega
      exact hincoming
    · rw [Function.update_of_ne hsame] at hcount ⊢
      exact h.input other hother count hcount
  · intro other hother
    by_cases hsame : other = block
    · subst hsame
      rw [Function.update_self, Function.update_self]
      exact (hincoming.map (hmeet other)).congr fun value => passesAfter_succ.symm
    · rw [Function.update_of_ne hsame, Function.update_of_ne hsame]
      exact h.output other hother
  · intro other hother
    have hne : other ≠ block := fun hsame => hother (hsame ▸ hblock)
    rw [Function.update_of_ne hne]
    exact h.outside other hother

-- The blocks of a round are visited in turn.
theorem Levelled.foldl_visit {returns : Nat} {visited blocks : List β} {states : States β α}
    (hblocks : flow.blocks = visited ++ blocks) (hnodup : flow.blocks.Nodup)
    (h : Levelled flow (fun block => if block ∈ visited then returns + 1 else returns) states)
    (hdescending : flow.Descending states) :
    Levelled flow (fun block => if block ∈ flow.blocks then returns + 1 else returns)
      (blocks.foldl flow.visit states) := by
  induction blocks generalizing visited states with
  | nil =>
      rw [List.append_nil] at hblocks
      rwa [hblocks]
  | cons block blocks ih =>
      have hnext : flow.blocks = (visited ++ [block]) ++ blocks := by simp [hblocks]
      have hmem : block ∈ flow.blocks := by simp [hblocks]
      have hfresh : block ∉ visited := by
        intro hvisited
        rw [hblocks] at hnodup
        exact (List.nodup_append.mp hnodup).2.2 block hvisited block List.mem_cons_self rfl
      have hindex : flow.blocks.idxOf block = visited.length := by
        rw [hblocks, List.idxOf_append_of_notMem hfresh, List.idxOf_cons_self, Nat.add_zero]
      have hbefore (predecessor : β) : flow.Before predecessor block ↔ predecessor ∈ visited := by
        unfold Before
        rw [hindex]
        by_cases hvisited : predecessor ∈ visited
        · rw [hblocks, List.idxOf_append_of_mem hvisited]
          simp [hvisited, List.idxOf_lt_length_iff]
        · rw [hblocks, List.idxOf_append_of_notMem hvisited]
          simp [hvisited]
      have hvisits (predecessor : β) :
          (flow.Before predecessor block →
            (if predecessor ∈ visited then returns + 1 else returns) = returns + 1) ∧
          (¬flow.Before predecessor block →
            (if predecessor ∈ visited then returns + 1 else returns) = returns) := by
        rw [hbefore]
        exact ⟨fun hvisited => if_pos hvisited, fun hvisited => if_neg hvisited⟩
      have hstep := h.visit hmeet hdescending hmem fun predecessor _ => hvisits predecessor
      refine ih hnext (hstep.congr fun other _ => ?_)
        (hdescending.visit (transfer_mono_of_inf hmeet) block)
      by_cases hsame : other = block
      · subst hsame
        simp
      · simp [hsame]

-- After some rounds, each block knows what the paths bring to it that go back less often.
theorem levelled_rounds (hnodup : flow.blocks.Nodup) (rounds : Nat) :
    Levelled flow (fun _ => rounds) (flow.round^[rounds] flow.start) ∧
      flow.Descending (flow.round^[rounds] flow.start) := by
  induction rounds with
  | zero => exact ⟨levelled_start flow, descending_start flow⟩
  | succ rounds ih =>
      obtain ⟨hlevelled, hdescending⟩ := ih
      rw [Function.iterate_succ_apply']
      have hbegun : Levelled flow
          (fun block => if block ∈ ([] : List β) then rounds + 1 else rounds)
          (flow.round^[rounds] flow.start) := hlevelled.congr fun block _ => by simp
      have hround := hbegun.foldl_visit hmeet (List.nil_append _).symm hnodup hdescending
      exact ⟨hround.congr fun block hblock => if_pos hblock,
        (hdescending.foldl_visit (transfer_mono_of_inf hmeet) flow.blocks).1⟩

-- What a block is found to know in each round.
theorem round_input_isMeet (hnodup : flow.blocks.Nodup) (returns : Nat) {block : β}
    (hblock : block ∈ flow.blocks) :
    IsMeet (flow.BringsWithin returns block) (flow.round^[returns + 1] flow.start block).input :=
  (levelled_rounds hmeet hnodup (returns + 1)).1.input block hblock returns rfl

end Levels

-- An analysis that writes something down at each visit, whether the states have settled or not.
section Noting

variable [SemilatticeInf α] [DecidableEq β] {ρ : Type w} (flow : Dataflow β α)
  (note : β → α → ρ → ρ)

def visitNoting (state : States β α × ρ) (block : β) : States β α × ρ :=
  (flow.visit state.1 block,
    match flow.incoming state.1 block with
    | none => state.2
    | some known => note block known state.2)

def roundNoting (state : States β α × ρ) : States β α × ρ :=
  flow.blocks.foldl (flow.visitNoting note) state

def solveNoting [DecidableEq α] (fuel : Nat) (record : ρ) : States β α × ρ :=
  settleLast (fun state next => flow.unchanged state.1 next.1) (flow.roundNoting note) fuel
    (flow.start, record)

def foundAt (states : States β α) (block : β) : List (β × α) :=
  match (states block).input with
  | none => []
  | some known => [(block, known)]

-- What the first rounds found, in the order they found it.
def foundIn (rounds : Nat) : List (β × α) :=
  (List.range rounds).flatMap fun returns =>
    flow.blocks.flatMap (foundAt (flow.round^[returns + 1] flow.start))

variable {flow note}

theorem foldl_visitNoting (hmono : ∀ block, Monotone (flow.transfer block)) {blocks : List β}
    (hnodup : blocks.Nodup) {states : States β α} (hdescending : flow.Descending states)
    (record : ρ) :
    blocks.foldl (flow.visitNoting note) (states, record) =
      (blocks.foldl flow.visit states,
        (blocks.flatMap (foundAt (blocks.foldl flow.visit states))).foldl
          (fun record entry => note entry.1 entry.2 record) record) := by
  induction blocks generalizing states record with
  | nil => rfl
  | cons block blocks ih =>
      obtain ⟨hfresh, hnodup⟩ := List.nodup_cons.mp hnodup
      have hinput : (blocks.foldl flow.visit (flow.visit states block) block).input =
          flow.incoming states block := by
        rw [foldl_visit_of_notMem blocks _ hfresh, hdescending.visit_eq block, Function.update_self]
      rw [List.foldl_cons, visitNoting, ih hnodup (hdescending.visit hmono block), List.foldl_cons,
        List.flatMap_cons, List.foldl_append, foundAt, hinput]
      cases hincoming : flow.incoming states block with
      | top => rfl
      | coe known => rfl

theorem iterate_roundNoting (hmono : ∀ block, Monotone (flow.transfer block))
    (hnodup : flow.blocks.Nodup) (rounds : Nat) (record : ρ) :
    (flow.roundNoting note)^[rounds] (flow.start, record) =
        (flow.round^[rounds] flow.start, (flow.foundIn rounds).foldl
          (fun record entry => note entry.1 entry.2 record) record) ∧
      flow.Descending (flow.round^[rounds] flow.start) := by
  induction rounds with
  | zero => exact ⟨rfl, descending_start flow⟩
  | succ rounds ih =>
      obtain ⟨hrun, hdescending⟩ := ih
      refine ⟨?_, ?_⟩
      · rw [Function.iterate_succ_apply', hrun, roundNoting,
          foldl_visitNoting hmono hnodup hdescending, foundIn, foundIn, List.range_succ,
          List.flatMap_append, List.foldl_append, List.flatMap_singleton,
          Function.iterate_succ_apply']
        rfl
      · rw [Function.iterate_succ_apply']
        exact (hdescending.foldl_visit hmono flow.blocks).1

theorem fst_roundNoting (state : States β α × ρ) :
    (flow.roundNoting note state).1 = flow.round state.1 := by
  unfold roundNoting round
  induction flow.blocks generalizing state with
  | nil => rfl
  | cons block blocks ih => exact ih (flow.visitNoting note state block)

section Ends

variable [DecidableEq α] {rank : α → Nat} {most : α} (hrank : StrictMono rank)
  (hmono : ∀ block, Monotone (flow.transfer block)) (hinitial : flow.initial ≤ most)
  (htransfer : ∀ block, ∀ known ≤ most, flow.transfer block known ≤ most)

include hrank hmono hinitial htransfer

-- The loop ends, with what the rounds found written down; from then on no round changes anything.
theorem solveNoting_ends {fuel : Nat} (hfuel : flow.weight rank most flow.start < fuel)
    (hnodup : flow.blocks.Nodup) (record : ρ) :
    EndsAfter (fun state next => flow.unchanged state.1 next.1) (flow.roundNoting note)
        (flow.start, record) (flow.solveNoting note fuel record) ∧
      ∃ rounds, flow.solveNoting note fuel record =
          (flow.round^[rounds + 1] flow.start, (flow.foundIn (rounds + 1)).foldl
            (fun record entry => note entry.1 entry.2 record) record) ∧
        ∀ more, rounds ≤ more → flow.round^[more] flow.start = flow.round^[rounds] flow.start := by
  have hround (state : States β α × ρ) (h : flow.Descending state.1 ∧ Below most state.1) :
      flow.Descending (flow.roundNoting note state).1 ∧ Below most (flow.roundNoting note state).1 := by
    rw [fst_roundNoting]
    exact round_bounded hmono htransfer h
  have hends : EndsAfter (fun state next => flow.unchanged state.1 next.1) (flow.roundNoting note)
      (flow.start, record) (flow.solveNoting note fuel record) := by
    refine settleLast_ends (fun state => flow.weight rank most state.1) hround ?_
      ⟨descending_start flow, below_start hinitial⟩ hfuel
    intro state h hchanged
    rw [fst_roundNoting] at hchanged ⊢
    exact weight_round_lt hrank hmono htransfer h hchanged
  refine ⟨hends, ?_⟩
  obtain ⟨rounds, hresult, hsettled, _⟩ := hends
  refine ⟨rounds, hresult.trans (iterate_roundNoting hmono hnodup _ record).1, ?_⟩
  rw [Function.iterate_succ_apply', (iterate_roundNoting hmono hnodup rounds record).1] at hsettled
  dsimp only at hsettled
  rw [fst_roundNoting] at hsettled
  have hfixed := round_eq_of_unchanged hsettled
  intro more hmore
  induction more, hmore using Nat.le_induction with
  | base => rfl
  | succ more _ ih => rw [Function.iterate_succ_apply', ih, hfixed]

end Ends

end Noting

end ConcurrencyAnalyzer.Library.Dataflow
