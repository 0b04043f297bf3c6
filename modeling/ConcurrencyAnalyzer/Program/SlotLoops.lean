import ConcurrencyAnalyzer.Program.ScalarLoops

namespace ConcurrencyAnalyzer.Program

-- A loop that tests a slot in its header, with the store before it that sets the slot, and the one inside
-- that moves it on from what `moved` read.
structure SlotWalk where
  header : Nat
  inside : Nat
  exit : Nat
  predicate : Predicate
  width : Nat
  slot : String
  initial : Point
  begin : Operand
  compare : Point
  current : Point
  rhs : Operand
  moved : Point
  step : Point
  advance : Point
  deriving DecidableEq

section Conditions

variable (walk : SlotWalk) (function : ScalarFunction) (arguments : Nat → Nat)
  (begins : CallState → Nat) (ends : Nat → CallState → Nat)
  (current : List CallEvent → Operand → Bool)

def SlotWalk.watched : WatchedLoop :=
  ⟨walk.header, walk.compare, .result walk.current, walk.rhs, begins, ends⟩

def SlotWalk.entersAt (events : List CallEvent) (block target : Nat) : Prop :=
  target = walk.header → function.inLoopOf walk.header block = false →
    .ran walk.advance ∉ sinceLast events walk.initial ∧
      staysSince events walk.initial walk.begin = true ∧ current events walk.begin = true

-- The loop is entered with its slot set and not moved since, by a value that is current. The slot moves
-- once a round at most. The tests compare it with one value, and that is current at each.
def SlotWalk.meets (events : List CallEvent) (watch : Watch) (state : CallState) : CallEvent → Prop
  | .ran point =>
      (point = walk.advance → .ran point ∉ watch.since) ∧
      (point = walk.compare → current events walk.rhs = true ∧
        ∀ test ∈ watch.tests, state.value arguments walk.rhs = some test.2)
  | .branched block _ target => walk.entersAt function current events block target
  | .went block target => walk.entersAt function current events block target

instance (events : List CallEvent) (block target : Nat) :
    Decidable (walk.entersAt function current events block target) :=
  inferInstanceAs (Decidable (_ → _ → _))

instance (events : List CallEvent) (watch : Watch) (state : CallState) (event : CallEvent) :
    Decidable (walk.meets function arguments current events watch state event) :=
  match event with
  | .ran _ => inferInstanceAs (Decidable (_ ∧ _))
  | .branched .. => inferInstanceAs (Decidable (SlotWalk.entersAt ..))
  | .went .. => inferInstanceAs (Decidable (SlotWalk.entersAt ..))

variable {walk function arguments begins ends} {watch : Watch} {state : CallState} {point : Point}

theorem SlotWalk.tests_at :
    (watch.after function arguments (walk.watched begins ends) state (.ran walk.compare)).tests =
      watch.tests ++ [((state.value arguments (.result walk.current)).getD 0,
        (state.value arguments walk.rhs).getD 0)] := if_pos rfl

theorem SlotWalk.tests_elsewhere (hne : point ≠ walk.compare) :
    (watch.after function arguments (walk.watched begins ends) state (.ran point)).tests =
      watch.tests := if_neg hne

theorem SlotWalk.finish_at :
    (watch.after function arguments (walk.watched begins ends) state (.ran walk.compare)).finish =
      ends watch.start state := if_pos rfl

theorem SlotWalk.finish_elsewhere (hne : point ≠ walk.compare) :
    (watch.after function arguments (walk.watched begins ends) state (.ran point)).finish =
      watch.finish := if_neg hne

end Conditions

-- An operand that is current has the value a number says, as far as its width goes.
def Stands (function : ScalarFunction) (arguments : Nat → Nat) (current : List CallEvent → Operand → Bool)
    (operand : Operand) (width : Nat) (number : CallState → Nat) : Prop :=
  ∀ events state value, CallRun function arguments events state → current events operand = true →
    state.value arguments operand = some value → value % 2 ^ width = number state % 2 ^ width

-- The slot has one store before the loop and one inside, and what moves it on and what is tested is read
-- in the loop. Where `always` is set no round goes without the store.
structure SlotLoop (function : ScalarFunction) extends SlotWalk where
  stepping : Scalar
  next : Nat → Nat
  always : Bool
  header_ne : header ≠ 0
  branches : function.terminatorOf header = some (.conditional (.result compare) inside exit)
  stays : function.inLoopOf header inside = true
  leaves : function.inLoopOf header exit = false
  compare_at : function.instructionAt compare = some (.icmp predicate width (.result current) rhs)
  current_at : function.instructionAt current = some (.load slot width)
  moved_at : function.instructionAt moved = some (.load slot width)
  step_at : function.instructionAt step = some stepping
  advance_at : function.instructionAt advance = some (.store slot (.result step) width)
  initial_at : function.instructionAt initial = some (.store slot begin width)
  initial_out : function.inLoopOf header initial.block = false
  initial_first : function.skeleton.blockDominates initial.block header = true
  kept : ∀ point slots, function.instructionAt point = some (.other slots) → slot ∉ slots
  uses_moved : .result moved ∈ stepping.operands
  not_store : ∀ slot operand width, stepping ≠ .store slot operand width
  gives_next : ∀ (arguments : Nat → Nat) (state : CallState) old value,
    state.results moved = some old → state.Gives arguments stepping value → value = next old
  only_store : ∀ point value other, function.instructionAt point = some (.store slot value other) →
    point = advance ∨ point = initial
  compare_in : compare.block = header
  current_in : current.block = header
  moved_in : function.inLoopOf header moved.block = true
  advance_in : function.inLoopOf header advance.block = true
  current_first : advance.block = header → current.index < advance.index
  every_round : always = true → ∃ latch, function.getLoopLatch header = some latch ∧
    function.dominates advance (function.endOf latch) = true

namespace SlotLoop

variable {function : ScalarFunction} (loop : SlotLoop function)

def holds (counter bound : Nat) : Bool := loop.predicate.holds loop.width counter bound

-- From one round to the next a counter moves on, or stays where its store need not run.
def Moves (counter after : Nat) : Prop :=
  after = loop.next counter ∨ loop.always = false ∧ after = counter

-- What the tests of the rounds so far read and compared, and what the counter is now. It is told from
-- its start by no more bits than are compared.
inductive Follows (start : Nat) : List (Nat × Nat) → Nat → Prop
  | first {counter} : counter % 2 ^ loop.width = start % 2 ^ loop.width → Follows start [] counter
  | next {tests counter bound after} : Follows start tests counter → loop.holds counter bound = true →
      loop.Moves counter after → Follows start (tests ++ [(counter, bound)]) after

-- What a round that began with a counter has done to it.
structure InRound (state : CallState) (watch : Watch) (counter : Nat) : Prop where
  slot : state.slots loop.slot =
    some (if .ran loop.advance ∈ watch.since then loop.next counter else counter, loop.width)
  moved : .ran loop.advance ∉ watch.since → .ran loop.moved ∈ watch.since →
    state.results loop.moved = some counter
  step : .ran loop.advance ∉ watch.since → .ran loop.step ∈ watch.since →
    state.results loop.step = some (loop.next counter)
  current : .ran loop.current ∈ watch.since → state.results loop.current = some counter
  untested : .ran loop.compare ∉ watch.since →
    state.place.block = loop.header ∧ loop.Follows watch.start watch.tests counter
  tested : .ran loop.compare ∈ watch.since → ∃ earlier bound,
    watch.tests = earlier ++ [(counter, bound)] ∧ loop.Follows watch.start earlier counter ∧
      state.results loop.compare = some (if loop.holds counter bound = true then 1 else 0) ∧
      (state.place.block ≠ loop.header → loop.holds counter bound = true)

section Steps

variable {loop} {arguments : Nat → Nat} {begins : CallState → Nat} {ends : Nat → CallState → Nat}
  {Meets : List CallEvent → Watch → CallState → CallEvent → Prop} {events : List CallEvent}
  {state : CallState} {watch : Watch} {counter value : Nat} {instruction : Scalar}

-- What an instruction at hand uses of the loop has run in the round.
theorem ran_used (hdefined : DefinedBeforeUse function)
    (hrounds : Rounds function arguments (loop.watched begins ends) Meets events state watch)
    (harrived : watch.arrived = true) (hat : function.instructionAt state.place = some instruction)
    {used : Point} (hused : .result used ∈ instruction.operands)
    (hin : function.inLoopOf loop.header used.block = true) : .ran used ∈ watch.since := by
  obtain ⟨hsome, hdominates⟩ := hdefined.1 _ _ hat used hused
  exact hrounds.ran_since (Rounds.never_before loop.header_ne used hin) harrived hsome hdominates

-- So has what is moved on from, before it is stored.
theorem ran_step (hdefined : DefinedBeforeUse function)
    (hrounds : Rounds function arguments (loop.watched begins ends) Meets events state watch)
    (harrived : watch.arrived = true) (hplace : state.place = loop.advance) :
    .ran loop.step ∈ watch.since := by
  have hat : function.instructionAt state.place = some (.store loop.slot (.result loop.step) loop.width) := by
    rw [hplace]
    exact loop.advance_at
  obtain ⟨hsome, hdominates⟩ := hdefined.1 _ _ hat loop.step (by simp [Scalar.operands])
  obtain ⟨_, hmovedDominates⟩ := hdefined.1 _ _ loop.step_at loop.moved loop.uses_moved
  refine hrounds.ran_since (fun events state watch hearlier hnot hran => ?_) harrived hsome hdominates
  exact Rounds.never_before loop.header_ne loop.moved loop.moved_in events state watch hearlier hnot
    (hearlier.run.ran_of_ran loop.moved_at hmovedDominates hran)

-- The test of a round comes before its store.
theorem not_advanced_in_header
    (hrounds : Rounds function arguments (loop.watched begins ends) Meets events state watch)
    (harrived : watch.arrived = true) (hplace : state.place = loop.current) :
    .ran loop.advance ∉ watch.since := by
  intro hran
  have hblock : state.place.block = loop.header := by rw [hplace, loop.current_in]
  obtain ⟨hheader, hindex⟩ := (hrounds.since_inside harrived).2 hblock _ hran
  have hfirst := loop.current_first hheader
  rw [hplace] at hindex
  omega

theorem mem_ran_append {since : List CallEvent} {point place : Point} :
    CallEvent.ran point ∈ since ++ [.ran place] ↔ .ran point ∈ since ∨ point = place := by
  rw [List.mem_append, List.mem_singleton, CallEvent.ran.injEq]

theorem ne_of_instructionAt {first second : Point} {one other : Scalar}
    (hfirst : function.instructionAt first = some one)
    (hsecond : function.instructionAt second = some other) (hne : one ≠ other) : first ≠ second := by
  rintro rfl
  rw [hfirst] at hsecond
  exact hne (Option.some.inj hsecond)

-- The address of the slot is never handed out.
theorem not_exposed (loop : SlotLoop function) (hrun : CallRun function arguments events state) :
    loop.slot ∉ state.exposed := by
  intro hmem
  obtain ⟨point, slots, hother, hslot⟩ := hrun.exposed_of_mem hmem
  exact loop.kept point slots hother hslot

section Given

variable (hdefined : DefinedBeforeUse function)
  (hrounds : Rounds function arguments (loop.watched begins ends) Meets events state watch)
  (harrived : watch.arrived = true) (hround : loop.InRound state watch counter)
  (hat : function.instructionAt state.place = some instruction)
  (hgives : state.Gives arguments instruction value)

-- What the counter is moved on from is the counter.
include hrounds hround hat hgives in
theorem InRound.moved_given (hplace : loop.moved = state.place)
    (hnot : .ran loop.advance ∉ watch.since) : value = counter := by
  have hload := loop.moved_at
  rw [hplace, hat] at hload
  rw [Option.some.inj hload] at hgives
  have hslot := hround.slot
  rw [if_neg hnot] at hslot
  exact hgives (loop.not_exposed hrounds.run) counter hslot

include hdefined hrounds harrived hround hat hgives in
theorem InRound.step_given (hplace : loop.step = state.place)
    (hnot : .ran loop.advance ∉ watch.since) : value = loop.next counter := by
  have hstepping := loop.step_at
  rw [hplace, hat] at hstepping
  have hmoved : .ran loop.moved ∈ watch.since := by
    refine ran_used hdefined hrounds harrived hat ?_ loop.moved_in
    rw [Option.some.inj hstepping]
    exact loop.uses_moved
  rw [Option.some.inj hstepping] at hgives
  exact loop.gives_next arguments state counter value (hround.moved hnot hmoved) hgives

-- What is tested is the counter, since the test comes before the store.
include hrounds harrived hround hat hgives in
theorem InRound.current_given (hplace : loop.current = state.place) : value = counter := by
  have hload := loop.current_at
  rw [hplace, hat] at hload
  rw [Option.some.inj hload] at hgives
  have hslot := hround.slot
  rw [if_neg (not_advanced_in_header hrounds harrived hplace.symm)] at hslot
  exact hgives (loop.not_exposed hrounds.run) counter hslot

-- The one test of a round compares the counter with the bound.
include hrounds harrived in
theorem not_compared (hplace : state.place = loop.compare) : .ran loop.compare ∉ watch.since := by
  intro hbefore
  have hblock : state.place.block = loop.header := by rw [hplace, loop.compare_in]
  obtain ⟨_, hindex⟩ := (hrounds.since_inside harrived).2 hblock _ hbefore
  rw [hplace] at hindex
  exact lt_irrefl _ hindex

include hdefined hrounds harrived hround hat hgives in
theorem InRound.compare_given (hplace : state.place = loop.compare) :
    ∃ bound, state.value arguments (.result loop.current) = some counter ∧
      state.value arguments loop.rhs = some bound ∧
      value = if loop.holds counter bound = true then 1 else 0 := by
  have hcompare := loop.compare_at
  rw [← hplace, hat] at hcompare
  have hcurrent : .ran loop.current ∈ watch.since := by
    refine ran_used hdefined hrounds harrived hat ?_ ?_
    · rw [Option.some.inj hcompare]
      simp [Scalar.operands]
    · rw [loop.current_in]
      exact ScalarFunction.inLoopOf_header loop.stays
  rw [Option.some.inj hcompare] at hgives
  obtain ⟨left, right, hleft, hright, hvalue⟩ := hgives
  have hcounter : state.value arguments (.result loop.current) = some counter := hround.current hcurrent
  rw [hcounter] at hleft
  refine ⟨right, hcounter, hright, ?_⟩
  rw [hvalue, ← Option.some.inj hleft]
  rfl

end Given

-- An instruction that gives a value leaves a round with the counter it began with.
theorem InRound.gives (hdefined : DefinedBeforeUse function)
    (hrounds : Rounds function arguments (loop.watched begins ends) Meets events state watch)
    (harrived : watch.arrived = true) (hround : loop.InRound state watch counter)
    (hat : function.instructionAt state.place = some instruction)
    (hgives : state.Gives arguments instruction value) :
    loop.InRound { state with
      place := ⟨state.place.block, state.place.index + 1⟩
      results := Function.update state.results state.place (some value)
      exposed := instruction.exposes ++ state.exposed }
      (watch.after function arguments (loop.watched begins ends) state (.ran state.place)) counter := by
  have hadvance : loop.advance ≠ state.place := by
    intro heq
    have hstore := loop.advance_at
    rw [heq, hat] at hstore
    rw [Option.some.inj hstore] at hgives
    exact hgives
  have hadvanced : CallEvent.ran loop.advance ∈ watch.since ++ [.ran state.place] ↔
      .ran loop.advance ∈ watch.since := by
    rw [mem_ran_append, or_iff_left hadvance]
  constructor
  · simp only [Watch.after, hadvanced]
    exact hround.slot
  · simp only [Watch.after, hadvanced, mem_ran_append]
    intro hnot hran
    by_cases hplace : loop.moved = state.place
    · rw [hplace, Function.update_self, hround.moved_given hrounds hat hgives hplace hnot]
    · rw [Function.update_of_ne hplace]
      exact hround.moved hnot (hran.resolve_right hplace)
  · simp only [Watch.after, hadvanced, mem_ran_append]
    intro hnot hran
    by_cases hplace : loop.step = state.place
    · rw [hplace, Function.update_self,
        hround.step_given hdefined hrounds harrived hat hgives hplace hnot]
    · rw [Function.update_of_ne hplace]
      exact hround.step hnot (hran.resolve_right hplace)
  · simp only [Watch.after, mem_ran_append]
    intro hran
    by_cases hplace : loop.current = state.place
    · rw [hplace, Function.update_self, hround.current_given hrounds harrived hat hgives hplace]
    · rw [Function.update_of_ne hplace]
      exact hround.current (hran.resolve_right hplace)
  · intro hran
    rw [Watch.after, mem_ran_append, not_or] at hran
    rw [SlotWalk.tests_elsewhere (Ne.symm hran.2)]
    exact hround.untested hran.1
  · intro hran
    rw [Watch.after, mem_ran_append] at hran
    by_cases hplace : state.place = loop.compare
    · have hblock : state.place.block = loop.header := by rw [hplace, loop.compare_in]
      obtain ⟨bound, hcounter, hbound, hvalue⟩ :=
        hround.compare_given hdefined hrounds harrived hat hgives hplace
      refine ⟨watch.tests, bound, ?_, (hround.untested (not_compared hrounds harrived hplace)).2, ?_,
        fun hne => absurd hblock hne⟩
      · rw [hplace, SlotWalk.tests_at, hcounter, hbound]
        rfl
      · dsimp only
        rw [← hplace, Function.update_self, hvalue]
    · dsimp only
      rw [SlotWalk.tests_elsewhere hplace, Function.update_of_ne (Ne.symm hplace)]
      exact hround.tested (hran.resolve_right (Ne.symm hplace))

-- A store moves the counter on, or leaves the slot alone.
theorem InRound.stores (hdefined : DefinedBeforeUse function)
    (hrounds : Rounds function arguments (loop.watched begins ends) Meets events state watch)
    (harrived : watch.arrived = true) (hround : loop.InRound state watch counter)
    (hin : function.inLoopOf loop.header state.place.block = true)
    (honce : state.place = loop.advance → .ran loop.advance ∉ watch.since)
    {slot : String} {operand : Operand} {width : Nat}
    (hat : function.instructionAt state.place = some (.store slot operand width))
    (hvalue : state.value arguments operand = some value) :
    loop.InRound { state with
      place := ⟨state.place.block, state.place.index + 1⟩
      slots := Function.update state.slots slot (some (value, width)) }
      (watch.after function arguments (loop.watched begins ends) state (.ran state.place)) counter := by
  have hmoved : loop.moved ≠ state.place := ne_of_instructionAt loop.moved_at hat (by simp)
  have hcurrent : loop.current ≠ state.place := ne_of_instructionAt loop.current_at hat (by simp)
  have hcompare : loop.compare ≠ state.place := ne_of_instructionAt loop.compare_at hat (by simp)
  have hstep : loop.step ≠ state.place := ne_of_instructionAt loop.step_at hat (loop.not_store _ _ _)
  have htests : (watch.after function arguments (loop.watched begins ends) state (.ran state.place)).tests =
      watch.tests := SlotWalk.tests_elsewhere (Ne.symm hcompare)
  constructor
  · simp only [Watch.after, mem_ran_append]
    by_cases hplace : loop.advance = state.place
    · have hstore := loop.advance_at
      rw [hplace, hat, Option.some.injEq, Scalar.store.injEq] at hstore
      obtain ⟨rfl, rfl, rfl⟩ := hstore
      have hnot := honce hplace.symm
      have hresult : state.results loop.step = some value := hvalue
      rw [hround.step hnot (ran_step hdefined hrounds harrived hplace.symm)] at hresult
      rw [if_pos (.inr hplace), Function.update_self, Option.some.inj hresult]
    · have hslot : loop.slot ≠ slot := by
        rintro rfl
        rcases loop.only_store _ _ _ hat with hsame | hsame
        · exact hplace hsame.symm
        · rw [hsame, loop.initial_out] at hin
          cases hin
      simp only [hplace, or_false]
      rw [Function.update_of_ne hslot]
      exact hround.slot
  · simp only [Watch.after, mem_ran_append, not_or]
    intro hnot hran
    exact hround.moved hnot.1 (hran.resolve_right hmoved)
  · simp only [Watch.after, mem_ran_append, not_or]
    intro hnot hran
    exact hround.step hnot.1 (hran.resolve_right hstep)
  · simp only [Watch.after, mem_ran_append]
    intro hran
    exact hround.current (hran.resolve_right hcurrent)
  · intro hran
    rw [htests]
    rw [Watch.after, mem_ran_append, not_or] at hran
    exact hround.untested hran.1
  · intro hran
    rw [htests]
    rw [Watch.after, mem_ran_append] at hran
    exact hround.tested (hran.resolve_right hcompare)

-- At the end of a block of the loop the test of the round has run, and it held where the round goes on.
theorem InRound.ends_block {event : CallEvent} {next : CallState} {target : Nat}
    (hdefined : DefinedBeforeUse function)
    (hrounds : Rounds function arguments (loop.watched begins ends) Meets events state watch)
    (harrived : watch.arrived = true) (hround : loop.InRound state watch counter)
    (hstep : CallStep function arguments state event next) (hnot : ∀ point, event ≠ .ran point)
    (hplace : next.place = ⟨target, 0⟩) :
    .ran loop.compare ∈ watch.since ∧ ∃ earlier bound,
      watch.tests = earlier ++ [(counter, bound)] ∧ loop.Follows watch.start earlier counter ∧
        (function.inLoopOf loop.header target = true → loop.holds counter bound = true) ∧
        (event = .branched loop.header 1 loop.exit → loop.holds counter bound = false) := by
  have hran : .ran loop.compare ∈ watch.since := by
    by_contra hnone
    have hblock := (hround.untested hnone).1
    refine hnone (hrounds.ran_since
      (Rounds.never_before loop.header_ne loop.compare ?_) harrived ?_ ?_)
    · rw [loop.compare_in]
      exact ScalarFunction.inLoopOf_header loop.stays
    · rw [loop.compare_at, Option.isSome_some]
    · rw [hstep.at_end hnot, hblock]
      exact (hdefined.2 _ _ _ _ loop.branches _ rfl).2
  obtain ⟨earlier, bound, htests, hfollows, hresult, hholds⟩ := hround.tested hran
  refine ⟨hran, earlier, bound, htests, hfollows, ?_⟩
  by_cases hblock : state.place.block = loop.header
  · have hterminator := loop.branches
    rw [← hblock] at hterminator
    obtain ⟨value, hvalue, hevent, hnext⟩ := hstep.branches_on hnot hterminator
    rw [hplace, Point.mk.injEq] at hnext
    have hcompared : state.results loop.compare = some value := hvalue
    rw [hresult, Option.some.injEq] at hcompared
    cases hheld : loop.holds counter bound with
    | true =>
        refine ⟨fun _ => rfl, fun hleft => ?_⟩
        rw [hheld, if_pos rfl] at hcompared
        rw [hevent, ← hcompared, CallEvent.branched.injEq] at hleft
        exact absurd hleft.2.1 (by decide)
    | false =>
        refine ⟨fun hin => ?_, fun _ => rfl⟩
        rw [hheld, if_neg Bool.false_ne_true] at hcompared
        rw [hnext.1, ← hcompared, if_neg (not_not.mpr rfl), loop.leaves] at hin
        cases hin
  · refine ⟨fun _ => hholds hblock, fun hleft => absurd ?_ hblock⟩
    rw [hleft] at hstep
    exact hstep.branched_block.symm

-- A round begins with what the slot holds.
theorem InRound.starts {after : Watch} (hsince : after.since = [])
    (hslot : state.slots loop.slot = some (counter, loop.width))
    (hplace : state.place.block = loop.header)
    (hfollows : loop.Follows after.start after.tests counter) : loop.InRound state after counter := by
  have hnone (point : Point) : CallEvent.ran point ∉ after.since := by
    rw [hsince]
    exact List.not_mem_nil
  constructor
  · rw [if_neg (hnone _)]
    exact hslot
  · exact fun _ hran => absurd hran (hnone _)
  · exact fun _ hran => absurd hran (hnone _)
  · exact fun hran => absurd hran (hnone _)
  · exact fun _ => ⟨hplace, hfollows⟩
  · exact fun hran => absurd hran (hnone _)

-- The store before the loop has run when the loop is entered.
theorem initial_ran (loop : SlotLoop function) {event : CallEvent} {next : CallState}
    (hrun : CallRun function arguments events state)
    (hstep : CallStep function arguments state event next) (hnot : ∀ point, event ≠ .ran point)
    (hplace : next.place = ⟨loop.header, 0⟩) : .ran loop.initial ∈ events := by
  have hne : loop.initial.block ≠ next.place.block := by
    intro heq
    have hout := loop.initial_out
    rw [heq, hplace, ScalarFunction.inLoopOf_header loop.stays] at hout
    cases hout
  have hdominates : function.dominates loop.initial next.place = true := by
    unfold ScalarFunction.dominates
    rw [if_neg hne, hplace]
    exact loop.initial_first
  have hran := (CallRun.step hrun hstep).ran_of_dominates loop.initial_at hdominates
  exact (List.mem_append.mp hran).resolve_right fun hnow => hnot _ (List.mem_singleton.mp hnow).symm

theorem enters_with {event : CallEvent} {next : CallState}
    {current : List CallEvent → Operand → Bool}
    (hbegins : Stands function arguments current loop.begin loop.width begins)
    (hrun : CallRun function arguments events state)
    (hstep : CallStep function arguments state event next) (hnot : ∀ point, event ≠ .ran point)
    (hplace : next.place = ⟨loop.header, 0⟩)
    (hmeets : loop.meets function arguments current events watch state event)
    (hout : function.inLoopOf loop.header state.place.block = false) :
    ∃ held, state.slots loop.slot = some (held, loop.width) ∧
      state.value arguments loop.begin = some held ∧
        held % 2 ^ loop.width = begins state % 2 ^ loop.width := by
  have henters : loop.entersAt function current events state.place.block loop.header := by
    rw [Point.mk.injEq] at hplace
    cases hstep with
    | gives _ _ => exact absurd rfl (hnot _)
    | stores _ _ => exact absurd rfl (hnot _)
    | branches _ _ _ _ =>
        rw [← hplace.1]
        exact hmeets
    | goes _ _ _ _ =>
        rw [← hplace.1]
        exact hmeets
  obtain ⟨hadvance, hstays, hcurrent⟩ := henters rfl hout
  have hran := initial_ran loop hrun hstep hnot hplace
  have honly (write : Point) (written : Operand) (width : Nat)
      (hstore : function.instructionAt write = some (.store loop.slot written width)) :
      write = loop.initial ∨ .ran write ∉ sinceLast events loop.initial := by
    rcases loop.only_store write written width hstore with rfl | hsame
    · exact .inr hadvance
    · exact .inl hsame
  obtain ⟨held, hheld, hvalue⟩ := hrun.stores_again loop.initial_at hran hstays honly
  exact ⟨held, hheld, hvalue, hbegins events state held hrun hcurrent hvalue⟩

-- A round is over with its counter moved on, or where it may be, left.
theorem InRound.moves {event : CallEvent} {next : CallState}
    (hrounds : Rounds function arguments (loop.watched begins ends) Meets events state watch)
    (harrived : watch.arrived = true) (hround : loop.InRound state watch counter)
    (hin : function.inLoopOf loop.header state.place.block = true)
    (hstep : CallStep function arguments state event next) (hnot : ∀ point, event ≠ .ran point)
    (hback : loop.header ∈ function.successors state.place.block) :
    ∃ after, state.slots loop.slot = some (after, loop.width) ∧ loop.Moves counter after := by
  refine ⟨_, hround.slot, ?_⟩
  by_cases hran : .ran loop.advance ∈ watch.since
  · rw [if_pos hran]
    exact .inl rfl
  · rw [if_neg hran]
    refine .inr ⟨?_, rfl⟩
    by_contra halways
    rw [Bool.not_eq_false] at halways
    obtain ⟨latch, hlatch, hdominates⟩ := loop.every_round halways
    refine hran (hrounds.ran_since
      (Rounds.never_before loop.header_ne loop.advance loop.advance_in) harrived ?_ ?_)
    · rw [loop.advance_at, Option.isSome_some]
    · rw [hstep.at_end hnot, ScalarFunction.latch_of_edge hlatch hback hin]
      exact hdominates

-- An edge inside the loop, but not back to its header, leaves a round as it is.
theorem InRound.goes_on {event : CallEvent} {next : CallState}
    (hround : loop.InRound state watch counter) (hnot : ∀ point, event ≠ .ran point)
    (hresults : next.results = state.results) (hslots : next.slots = state.slots)
    (hran : .ran loop.compare ∈ watch.since)
    (htested : ∃ earlier bound, watch.tests = earlier ++ [(counter, bound)] ∧
      loop.Follows watch.start earlier counter ∧ loop.holds counter bound = true) :
    loop.InRound next { watch with since := watch.since ++ [event] } counter := by
  have hsame (point : Point) : CallEvent.ran point ∈ watch.since ++ [event] ↔
      .ran point ∈ watch.since := by
    rw [List.mem_append, List.mem_singleton, or_iff_left (Ne.symm (hnot point))]
  constructor
  · simp only [hsame, hslots]
    exact hround.slot
  · simp only [hsame, hresults]
    exact hround.moved
  · simp only [hsame, hresults]
    exact hround.step
  · simp only [hsame, hresults]
    exact hround.current
  · rw [hsame]
    exact fun hnone => absurd hran hnone
  · intro _
    obtain ⟨earlier, bound, htests, hfollows, hholds⟩ := htested
    obtain ⟨other, otherBound, hother, _, hresult, _⟩ := hround.tested hran
    rw [htests] at hother
    obtain ⟨_, hsame⟩ := List.append_inj' hother rfl
    rw [List.cons.injEq, Prod.mk.injEq] at hsame
    rw [← hsame.1.2] at hresult
    refine ⟨earlier, bound, htests, hfollows, ?_, fun _ => hholds⟩
    rw [hresults]
    exact hresult

section Entered

variable {current : List CallEvent → Operand → Bool}
  (hmeets : ∀ events watch state event, Meets events watch state event →
    loop.meets function arguments current events watch state event)
  (hbegins : Stands function arguments current loop.begin loop.width begins)

include hmeets hbegins

-- Each state in the loop is in a round.
theorem exists_inRound (hdefined : DefinedBeforeUse function)
    (hrounds : Rounds function arguments (loop.watched begins ends) Meets events state watch)
    (hin : function.inLoopOf loop.header state.place.block = true) :
    watch.arrived = true ∧ ∃ counter, loop.InRound state watch counter := by
  induction hrounds with
  | enter =>
      rw [CallState.initial, ScalarFunction.entry_not_inLoop loop.header_ne] at hin
      cases hin
  | @step events state watch event next hrounds hstep hmet ih =>
      rcases @CallStep.watch_cases _ _ (loop.watched begins ends) _ _ _ hstep watch with
        ⟨rfl, hplace, hsame, _, _⟩ | ⟨target, htarget, hplace, hnot, hresults, hslots, hafter⟩
      · rw [hplace] at hin
        obtain ⟨harrived, counter, hround⟩ := ih hin
        refine ⟨hsame.trans harrived, counter, ?_⟩
        cases hstep with
        | gives hat hgives => exact hround.gives hdefined hrounds harrived hat hgives
        | stores hat hvalue =>
            refine hround.stores hdefined hrounds harrived hin (fun hadvance => ?_) hat hvalue
            have honce := (hmeets _ _ _ _ hmet).1 hadvance
            rw [hadvance] at honce
            exact honce
      · rw [hplace] at hin
        by_cases hback : target = loop.header
        · by_cases hbefore : function.inLoopOf loop.header state.place.block = true
          · obtain ⟨harrived, counter, hround⟩ := ih hbefore
            obtain ⟨_, earlier, bound, htests, hfollows, hholds, _⟩ :=
              hround.ends_block hdefined hrounds harrived hstep hnot hplace
            obtain ⟨after, hslot, hmoves⟩ :=
              hround.moves hrounds harrived hbefore hstep hnot (hback ▸ htarget)
            rw [hafter, Watch.goes_again (loop.watched begins ends) hback hbefore]
            refine ⟨rfl, after, .starts rfl ?_ ?_ ?_⟩
            · rw [hslots]
              exact hslot
            · rw [hplace]
              exact hback
            · dsimp only
              rw [htests]
              exact .next hfollows (hholds hin) hmoves
          · rw [Bool.not_eq_true] at hbefore
            obtain ⟨held, hheld, _, hbegun⟩ := enters_with hbegins hrounds.run hstep hnot
              (hback ▸ hplace) (hmeets _ _ _ _ hmet) hbefore
            rw [hafter, Watch.goes_in (loop.watched begins ends) hback hbefore]
            refine ⟨rfl, held, .starts rfl ?_ ?_ (.first hbegun)⟩
            · rw [hslots]
              exact hheld
            · rw [hplace]
              exact hback
        · rw [hafter, Watch.goes_on (loop.watched begins ends) hback]
          obtain ⟨harrived, counter, hround⟩ :=
            ih (ScalarFunction.inLoop_of_successor hrounds.run.reachable htarget hback hin)
          obtain ⟨hran, earlier, bound, htests, hfollows, hholds, _⟩ :=
            hround.ends_block hdefined hrounds harrived hstep hnot hplace
          exact ⟨harrived, counter, hround.goes_on hnot hresults hslots hran
            ⟨earlier, bound, htests, hfollows, hholds hin⟩⟩

omit hbegins in
-- All the tests since the loop was entered compared with the end that the last one found.
theorem one_bound
    (hends : ∀ events state watch bound,
      Rounds function arguments (loop.watched begins ends) Meets events state watch →
        state.place = loop.compare → Meets events watch state (.ran loop.compare) →
          state.value arguments loop.rhs = some bound →
            bound % 2 ^ loop.width = ends watch.start state % 2 ^ loop.width)
    (hrounds : Rounds function arguments (loop.watched begins ends) Meets events state watch) :
    ∀ test ∈ watch.tests, test.2 % 2 ^ loop.width = watch.finish % 2 ^ loop.width := by
  induction hrounds with
  | enter => exact fun _ htest => absurd htest List.not_mem_nil
  | @step events state watch event next hrounds hstep hmet ih =>
      rcases @CallStep.watch_cases _ _ (loop.watched begins ends) _ _ _ hstep watch with
        ⟨rfl, _, _, _, _⟩ | ⟨target, _, _, _, _, _, hafter⟩
      · by_cases hplace : state.place = loop.compare
        · rw [hplace] at hmet
          obtain ⟨_, hearlier⟩ := (hmeets _ _ _ _ hmet).2 rfl
          obtain ⟨bound, hbound⟩ : ∃ bound, state.value arguments loop.rhs = some bound := by
            cases hstep with
            | gives hat hgives =>
                rw [hplace, loop.compare_at, Option.some.injEq] at hat
                subst hat
                obtain ⟨_, right, _, hright, _⟩ := hgives
                exact ⟨right, hright⟩
            | stores hat _ =>
                rw [hplace, loop.compare_at] at hat
                cases hat
          have hend := hends events state watch bound hrounds hplace hmet hbound
          intro test htest
          rw [hplace, SlotWalk.tests_at, hbound] at htest
          rw [hplace, SlotWalk.finish_at, ← hend]
          rcases List.mem_append.mp htest with hbefore | hnow
          · have hsame := hearlier test hbefore
            rw [hbound, Option.some.injEq] at hsame
            rw [hsame]
          · rw [List.mem_singleton.mp hnow]
            rfl
        · rw [SlotWalk.tests_elsewhere hplace, SlotWalk.finish_elsewhere hplace]
          exact ih
      · rw [hafter]
        by_cases hback : target = loop.header
        · by_cases hbefore : function.inLoopOf loop.header state.place.block = true
          · rw [Watch.goes_again (loop.watched begins ends) hback hbefore]
            exact ih
          · rw [Bool.not_eq_true] at hbefore
            rw [Watch.goes_in (loop.watched begins ends) hback hbefore]
            exact fun _ htest => absurd htest List.not_mem_nil
        · rw [Watch.goes_on (loop.watched begins ends) hback]
          exact ih

-- Once the loop is left by its test, each round before read a counter that passed, and the last one
-- did not.
theorem tests_of_left (hdefined : DefinedBeforeUse function)
    (hrounds : Rounds function arguments (loop.watched begins ends) Meets events state watch)
    (hleft : .branched loop.header 1 loop.exit ∈ watch.since) :
    ∃ earlier counter bound, watch.tests = earlier ++ [(counter, bound)] ∧
      loop.Follows watch.start earlier counter ∧ loop.holds counter bound = false := by
  induction hrounds with
  | enter => exact absurd hleft List.not_mem_nil
  | @step events state watch event next hrounds hstep hmet ih =>
      rcases @CallStep.watch_cases _ _ (loop.watched begins ends) _ _ _ hstep watch with
        ⟨rfl, _, _, hsince, hstart⟩ | ⟨target, htarget, hplace, hnot, _, _, hafter⟩
      · rw [hsince] at hleft
        have hbefore : .branched loop.header 1 loop.exit ∈ watch.since := by
          rcases List.mem_append.mp hleft with hbefore | hnow
          · exact hbefore
          · cases List.mem_singleton.mp hnow
        have hne : state.place ≠ loop.compare := by
          intro heq
          have houtside : function.inLoopOf loop.header state.place.block = false :=
            hrounds.left hbefore loop.leaves
          rw [heq, loop.compare_in, ScalarFunction.inLoopOf_header loop.stays] at houtside
          cases houtside
        rw [hstart, SlotWalk.tests_elsewhere hne]
        exact ih hbefore
      · rw [hafter] at hleft ⊢
        by_cases hback : target = loop.header
        · rw [Watch.since_of_header (loop.watched begins ends) hback] at hleft
          exact absurd hleft List.not_mem_nil
        · rw [Watch.goes_on (loop.watched begins ends) hback] at hleft ⊢
          rcases List.mem_append.mp hleft with hbefore | hnow
          · exact ih hbefore
          · rw [List.mem_singleton] at hnow
            have hin : function.inLoopOf loop.header state.place.block = true := by
              rw [← hnow] at hstep
              rw [← hstep.branched_block]
              exact ScalarFunction.inLoopOf_header loop.stays
            obtain ⟨harrived, counter, hround⟩ := exists_inRound hmeets hbegins hdefined hrounds hin
            obtain ⟨_, earlier, bound, htests, hfollows, _, hfails⟩ :=
              hround.ends_block hdefined hrounds harrived hstep hnot hplace
            exact ⟨earlier, counter, bound, htests, hfollows, hfails hnow.symm⟩

omit hmeets hbegins in
-- What the slot is set to before the loop is not computed in it.
theorem begin_outside (hdefined : DefinedBeforeUse function)
    (hrounds : Rounds function arguments (loop.watched begins ends) Meets events state watch)
    (harrived : watch.arrived = true) {used : Point} (hused : loop.begin = .result used) :
    function.inLoopOf loop.header used.block = false := by
  obtain ⟨hsome, hdominates⟩ := hdefined.1 _ _ loop.initial_at used (by simp [Scalar.operands, hused])
  obtain ⟨instruction, hinstruction⟩ := Option.isSome_iff_exists.mp hsome
  induction hrounds with
  | enter => cases harrived
  | @step events state watch event next hrounds hstep _ ih =>
      by_cases hbefore : watch.arrived = true
      · exact ih hbefore
      · rw [Bool.not_eq_true] at hbefore
        rcases @CallStep.watch_cases _ _ (loop.watched begins ends) _ _ _ hstep watch with
          ⟨rfl, _, hsame, _, _⟩ | ⟨target, _, hplace, hnot, _, _, hafter⟩
        · rw [hsame, hbefore] at harrived
          cases harrived
        · have htarget : target = loop.header := by
            by_contra hne
            rw [hafter, Watch.goes_on (loop.watched begins ends) hne, hbefore] at harrived
            cases harrived
          have hinitial := initial_ran loop hrounds.run hstep hnot (htarget ▸ hplace)
          exact (hrounds.before_arrival loop.header_ne hbefore).2 used
            (hrounds.run.ran_of_ran hinstruction hdominates hinitial)

-- In the loop it is what it was when the loop was entered.
theorem begin_kept (hdefined : DefinedBeforeUse function)
    (hrounds : Rounds function arguments (loop.watched begins ends) Meets events state watch)
    (hin : function.inLoopOf loop.header state.place.block = true) :
    ∃ first, state.value arguments loop.begin = some first ∧
      first % 2 ^ loop.width = watch.start % 2 ^ loop.width := by
  induction hrounds with
  | enter =>
      rw [CallState.initial, ScalarFunction.entry_not_inLoop loop.header_ne] at hin
      cases hin
  | @step events state watch event next hrounds hstep hmet ih =>
      rcases @CallStep.watch_cases _ _ (loop.watched begins ends) _ _ _ hstep watch with
        ⟨rfl, hplace, _, _, hstart⟩ | ⟨target, htarget, hplace, hnot, _, _, hafter⟩
      · rw [hplace] at hin
        obtain ⟨first, hfirst, hsame⟩ := ih hin
        have harrived := (exists_inRound hmeets hbegins hdefined hrounds hin).1
        refine ⟨first, ?_, by rw [hstart]; exact hsame⟩
        rw [← hfirst]
        refine hstep.value_of_ne fun used hused hran => ?_
        rw [CallEvent.ran.injEq] at hran
        have hout := begin_outside hdefined hrounds harrived hused
        rw [← hran, hin] at hout
        cases hout
      · have hvalue : next.value arguments loop.begin = state.value arguments loop.begin :=
          hstep.value_of_ne fun used _ => hnot used
        rw [hvalue, hafter]
        by_cases hback : target = loop.header
        · by_cases hbefore : function.inLoopOf loop.header state.place.block = true
          · rw [Watch.goes_again (loop.watched begins ends) hback hbefore]
            exact ih hbefore
          · rw [Bool.not_eq_true] at hbefore
            obtain ⟨held, _, hheld, hbegun⟩ := enters_with hbegins hrounds.run hstep hnot
              (hback ▸ hplace) (hmeets _ _ _ _ hmet) hbefore
            rw [Watch.goes_in (loop.watched begins ends) hback hbefore]
            exact ⟨held, hheld, hbegun⟩
        · rw [Watch.goes_on (loop.watched begins ends) hback]
          rw [hplace] at hin
          exact ih (ScalarFunction.inLoop_of_successor hrounds.run.reachable htarget hback hin)

end Entered

end Steps

end SlotLoop

end ConcurrencyAnalyzer.Program
