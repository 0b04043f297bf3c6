import ConcurrencyAnalyzer.ThreadCompletion.ThreadStarters

namespace ConcurrencyAnalyzer.ThreadCompletion

open Program Library Relation

variable {module : StarterModule}

section Starters

theorem call_lt {function : Nat} {call : StarterCall} (h : call ∈ callsIn module function) :
    function < module.length := by
  unfold callsIn at h
  by_contra hlarge
  rw [List.getElem?_eq_none (Nat.not_lt.mp hlarge)] at h
  exact List.not_mem_nil h

theorem mem_calls_of_callsIn {function : Nat} {found : StarterFunction} {call : StarterCall}
    (hfound : module[function]? = some found) (h : call ∈ callsIn module function) :
    call ∈ found.calls := by
  unfold callsIn at h
  rw [hfound] at h
  exact h

theorem startsDirectly_of_startsThread (starters : Finset Nat) {call : StarterCall}
    (h : startsThread call = true) : startsDirectly starters call = true := by
  rw [startsDirectly, h, Bool.true_or]

theorem ownThread_handed {index : Nat} (function : Nat) {call : StarterCall}
    (h : call.firstObject = some index) : ownThread (some index) function call = [] := by
  rw [ownThread, if_pos]
  unfold handsOn
  simp [h]

theorem startersBy_mono (function : Nat) : Monotone ((startersBy module).adds function) := by
  intro starters other hle
  unfold startersBy
  dsimp only
  split
  · rename_i hany
    obtain ⟨call, hcall, hstarts⟩ := List.any_eq_true.mp hany
    have hother : (callsIn module function).any (startsDirectly other) = true := by
      refine List.any_eq_true.mpr ⟨call, hcall, ?_⟩
      unfold startsDirectly callsStarter at hstarts ⊢
      rw [Bool.or_eq_true] at hstarts ⊢
      refine hstarts.imp_right fun hcallee => ?_
      obtain ⟨callee, hcallee, hmem⟩ := (Option.any_eq_true _ _).mp hcallee
      rw [decide_eq_true_eq] at hmem
      exact (Option.any_eq_true _ _).mpr ⟨callee, hcallee, decide_eq_true (hle hmem)⟩
    rw [if_pos hother]
  · exact Finset.empty_subset _

-- A function that makes a call that starts a thread, or names one that does, is found.
theorem mem_threadStarters {function : Nat} {call : StarterCall}
    (hcall : call ∈ callsIn module function)
    (hstarts : startsDirectly (threadStarters module) call = true) :
    function ∈ threadStarters module := by
  have hlt := call_lt hcall
  have hfinite : {found | found < module.length}.Finite := Set.finite_lt_nat module.length
  have hcard : hfinite.toFinset.card ≤ module.length := by
    have heq : hfinite.toFinset = Finset.range module.length := by
      ext found
      simp
    rw [heq, Finset.card_range]
  have hadds : ∀ visit ∈ (startersBy module).visits, ∀ starters : Finset Nat,
      (∀ starter ∈ starters, starter < module.length) →
        ∀ starter ∈ (startersBy module).adds visit starters, starter < module.length := by
    intro visit hvisit starters _ starter hstarter
    unfold startersBy at hstarter
    dsimp only at hstarter
    split at hstarter
    · rw [Finset.mem_singleton.mp hstarter]
      exact List.mem_range.mp hvisit
    · exact absurd hstarter (Finset.notMem_empty starter)
  obtain ⟨_, hsolves, _⟩ := Accumulation.solve_isLeast startersBy_mono hfinite hadds hcard
  refine (hsolves function).mpr ⟨function, List.mem_range.mpr hlt, ?_⟩
  have hany : (callsIn module function).any (startsDirectly (threadStarters module)) = true :=
    List.any_eq_true.mpr ⟨call, hcall, hstarts⟩
  change function ∈ if (callsIn module function).any (startsDirectly (threadStarters module)) then
    {function} else ∅
  rw [if_pos hany]
  exact Finset.mem_singleton_self function

theorem startsDirectly_of_callee {starters : Finset Nat} {call : StarterCall} {callee : Nat}
    (hcallee : call.callee = some callee) (hmem : callee ∈ starters) :
    startsDirectly starters call = true := by
  unfold startsDirectly callsStarter
  rw [hcallee, Option.any_some, decide_eq_true hmem, Bool.or_true]

end Starters

section Building

theorem intoCalls_spec {into : Visiting → Nat → Bool × Visiting} {index : Nat}
    {calls : List StarterCall} {visiting : Visiting}
    (h : (intoCalls module into index calls visiting).1 = true) :
    ∀ call ∈ calls, startsDirectly (threadStarters module) call = true →
      call.firstObject = some index ∧ ∀ callee, call.callee = some callee →
        callee ∈ threadStarters module → ∃ visiting, (into visiting callee).1 = true := by
  induction calls generalizing visiting with
  | nil => exact fun call hcall => absurd hcall List.not_mem_nil
  | cons first calls ih =>
      unfold intoCalls at h
      split at h
      · rename_i hnot
        intro call hcall hstarts
        rcases List.mem_cons.mp hcall with rfl | hlater
        · rw [hstarts] at hnot
          cases hnot
        · exact ih h call hlater hstarts
      · split at h
        · cases h
        · rename_i hobject
          rw [ne_eq, not_not] at hobject
          have hfirst (hinto : ∀ callee, first.callee = some callee → callee ∈ threadStarters module →
              ∃ visiting, (into visiting callee).1 = true)
              (hrest : ∃ visiting, (intoCalls module into index calls visiting).1 = true) :
              ∀ call ∈ first :: calls, startsDirectly (threadStarters module) call = true →
                call.firstObject = some index ∧ ∀ callee, call.callee = some callee →
                  callee ∈ threadStarters module → ∃ visiting, (into visiting callee).1 = true := by
            obtain ⟨after, hafter⟩ := hrest
            intro call hcall hstarts
            rcases List.mem_cons.mp hcall with rfl | hlater
            · exact ⟨hobject, hinto⟩
            · exact ih hafter call hlater hstarts
          split at h
          · rename_i callee hcallee
            obtain ⟨hcallee, _⟩ := Option.filter_eq_some_iff.mp hcallee
            split at h
            · rename_i htrue
              refine hfirst (fun other hother _ => ?_) ⟨_, h⟩
              rw [hcallee, Option.some.injEq] at hother
              subst hother
              exact ⟨_, htrue⟩
            · rename_i hfalse
              exact absurd h hfalse
          · rename_i hnone
            refine hfirst (fun other hother hmem => ?_) ⟨_, h⟩
            rw [hother, Option.filter_some, if_pos (decide_eq_true hmem)] at hnone
            cases hnone

-- All that a function starts, it starts into the object of a parameter.
def StartsInto (module : StarterModule) (function index : Nat) : Prop :=
  ∃ fuel visiting, (startsOnlyInto module fuel visiting function index).1 = true

theorem StartsInto.call {function index : Nat} (h : StartsInto module function index)
    {call : StarterCall} (hcall : call ∈ callsIn module function)
    (hstarts : startsDirectly (threadStarters module) call = true) :
    call.firstObject = some index ∧ ∀ callee, call.callee = some callee →
      callee ∈ threadStarters module → StartsInto module callee 0 := by
  obtain ⟨fuel, visiting, h⟩ := h
  cases fuel with
  | zero => cases h
  | succ fuel =>
      unfold startsOnlyInto at h
      split at h
      · cases h
      · rename_i found hfound
        split at h
        · cases h
        · have hmem := mem_calls_of_callsIn hfound hcall
          obtain ⟨hobject, hinto⟩ := intoCalls_spec h call hmem hstarts
          refine ⟨hobject, fun callee hcallee hstarter => ?_⟩
          obtain ⟨before, htrue⟩ := hinto callee hcallee hstarter
          exact ⟨fuel, before, htrue⟩

-- A call of the function starts no thread that is counted.
def Quiet (module : StarterModule) : Moment → Prop
  | .reached built function _ | .running built function _ =>
      function ∉ threadStarters module ∨ ∃ index, built = some index ∧ StartsInto module function index

theorem quiet_callee {built : Option Nat} {function index : Nat} (hbuilt : built = some index)
    (hinto : StartsInto module function index) {call : StarterCall}
    (hcall : call ∈ callsIn module function) {callee : Nat} (hcallee : call.callee = some callee)
    (point : Point) : Quiet module (.running (builtBy built call) callee point) := by
  by_cases hstarter : callee ∈ threadStarters module
  · obtain ⟨hobject, hcalleeInto⟩ := hinto.call hcall (startsDirectly_of_callee hcallee hstarter)
    refine .inr ⟨0, ?_, hcalleeInto callee hcallee hstarter⟩
    unfold builtBy handsOn
    simp [hbuilt, hobject]
  · exact .inl hstarter

theorem none_started {moment : Moment} {threads : List Spawn} (h : Started module moment threads)
    (hquiet : Quiet module moment) : threads = [] := by
  induction h with
  | enter => rfl
  | onward _ _ _ ih => exact ih hquiet
  | runs _ ih => exact ih hquiet
  | @starts built function call threads hcall hstarts _ ih =>
      have hdirectly := startsDirectly_of_startsThread (threadStarters module) hstarts
      rcases hquiet with hnot | ⟨index, rfl, hinto⟩
      · exact absurd (mem_threadStarters hcall hdirectly) hnot
      · have hobject := (hinto.call hcall hdirectly).1
        rw [ih (.inr ⟨index, rfl, hinto⟩), List.nil_append, ownThread_handed function hobject]
  | @startsThrough built function call callee point threads inner hcall hstarts hcallee _ _ ih ihInner =>
      have hdirectly := startsDirectly_of_startsThread (threadStarters module) hstarts
      rcases hquiet with hnot | ⟨index, rfl, hinto⟩
      · exact absurd (mem_threadStarters hcall hdirectly) hnot
      · have hobject := (hinto.call hcall hdirectly).1
        rw [ih (.inr ⟨index, rfl, hinto⟩), ihInner (quiet_callee rfl hinto hcall hcallee point),
          List.nil_append, List.append_nil, ownThread_handed function hobject]
  | @calls built function call callee point threads inner hcall hstarts hcallee _ _ ih ihInner =>
      rcases hquiet with hnot | ⟨index, hbuilt, hinto⟩
      · have hstarter : callee ∉ threadStarters module := fun hmem =>
          hnot (mem_threadStarters hcall (startsDirectly_of_callee hcallee hmem))
        rw [ih (.inl hnot), ihInner (.inl hstarter), List.nil_append]
      · rw [ih (.inr ⟨index, hbuilt, hinto⟩), ihInner (quiet_callee hbuilt hinto hcall hcallee point),
          List.nil_append]

end Building

section Answers

-- What an answer of true rests on.
inductive SingleStart (module : StarterModule) : Nat → Prop
  | intro {function found} : module[function]? = some found →
      (∀ call ∈ found.calls, startsThread call = true → ∀ callee, call.callee = some callee →
        callee ∈ threadStarters module → StartsInto module callee 0) →
      (∀ call ∈ found.calls, startsThread call = false → ∀ callee, call.callee = some callee →
        callee ∈ threadStarters module → SingleStart module callee) →
      (∀ start ∈ found.calls, startsDirectly (threadStarters module) start = true →
        mayRepeat found start.point = false ∧ ∀ other ∈ found.calls,
          startsDirectly (threadStarters module) other = true → other ≠ start →
            found.isPotentiallyReachable start.point other.point = false) →
      SingleStart module function

def AnswersHold (module : StarterModule) (known : Known) : Prop :=
  ∀ function, known function = some true → SingleStart module function

variable {single : Known → Nat → Bool × Known}
  (hsingle : ∀ known function, AnswersHold module known → AnswersHold module (single known function).2 ∧
    ((single known function).1 = true → SingleStart module function))

include hsingle

theorem startingCalls_known (calls : List StarterCall) {starts : List StarterCall} {known : Known}
    (hknown : AnswersHold module known) :
    AnswersHold module (startingCalls module single calls starts known).2 := by
  induction calls generalizing starts known with
  | nil => exact hknown
  | cons first calls ih =>
      unfold startingCalls
      split
      · split
        · exact hknown
        · exact ih hknown
      · split
        · exact ih hknown
        · rename_i callee _
          split
          · exact ih (hsingle known callee hknown).1
          · exact (hsingle known callee hknown).1

-- The calls collected are those that may start a thread, and each of them starts at most one.
theorem startingCalls_spec {calls starts collected : List StarterCall} {known : Known}
    (hknown : AnswersHold module known)
    (h : (startingCalls module single calls starts known).1 = some collected) :
    (∀ call, call ∈ collected ↔ call ∈ starts ∨
      call ∈ calls ∧ startsDirectly (threadStarters module) call = true) ∧
    ∀ call ∈ calls, ∀ callee, call.callee = some callee → callee ∈ threadStarters module →
      (startsThread call = true → StartsInto module callee 0) ∧
        (startsThread call = false → SingleStart module callee) := by
  induction calls generalizing starts known with
  | nil =>
      rw [startingCalls, Option.some.injEq] at h
      subst h
      simp
  | cons first calls ih =>
      have hcons {rest : List StarterCall} (hkept : ∀ call, call ∈ rest ↔ call ∈ starts ∨
            call = first ∧ startsDirectly (threadStarters module) first = true)
          (hcollected : ∀ call, call ∈ collected ↔ call ∈ rest ∨
            call ∈ calls ∧ startsDirectly (threadStarters module) call = true) (call : StarterCall) :
          call ∈ collected ↔ call ∈ starts ∨
            call ∈ first :: calls ∧ startsDirectly (threadStarters module) call = true := by
        rw [hcollected, hkept, List.mem_cons]
        constructor
        · rintro ((hstart | ⟨rfl, hstarts⟩) | ⟨hlater, hstarts⟩)
          · exact .inl hstart
          · exact .inr ⟨.inl rfl, hstarts⟩
          · exact .inr ⟨.inr hlater, hstarts⟩
        · rintro (hstart | ⟨rfl | hlater, hstarts⟩)
          · exact .inl (.inl hstart)
          · exact .inl (.inr ⟨rfl, hstarts⟩)
          · exact .inr ⟨hlater, hstarts⟩
      have hstarter {callee : Nat} (hcallee : first.callee = some callee)
          (hmem : callee ∈ threadStarters module) :
          first.callee.filter (· ∈ threadStarters module) = some callee :=
        Option.filter_eq_some_iff.mpr ⟨hcallee, decide_eq_true hmem⟩
      unfold startingCalls at h
      split at h
      · rename_i hstarts
        split at h
        · cases h
        · rename_i hkind
          rw [not_or, Bool.not_eq_true] at hkind
          obtain ⟨hcollected, hrest⟩ := ih hknown h
          have hdirectly := startsDirectly_of_startsThread (threadStarters module) hstarts
          refine ⟨hcons (fun call => ?_) hcollected, fun call hcall callee hcallee hmem => ?_⟩
          · simp [hdirectly]
          · rcases List.mem_cons.mp hcall with rfl | hlater
            · refine ⟨fun _ => ?_, fun hnot => absurd (hstarts.symm.trans hnot) (by decide)⟩
              rw [hstarter hcallee hmem, Option.any_some, Bool.not_eq_false'] at hkind
              exact ⟨_, _, hkind.2⟩
            · exact hrest call hlater callee hcallee hmem
      · rename_i hnot
        rw [Bool.not_eq_true] at hnot
        split at h
        · rename_i hnone
          obtain ⟨hcollected, hrest⟩ := ih hknown h
          have hquiet : startsDirectly (threadStarters module) first = false := by
            unfold startsDirectly callsStarter
            rw [hnot, Bool.false_or]
            by_contra hany
            obtain ⟨callee, hcallee, hmem⟩ :=
              (Option.any_eq_true _ _).mp ((Bool.not_eq_false _).mp hany)
            rw [hstarter hcallee (of_decide_eq_true hmem)] at hnone
            cases hnone
          refine ⟨hcons (fun call => ?_) hcollected, fun call hcall callee hcallee hmem => ?_⟩
          · simp [hquiet]
          · rcases List.mem_cons.mp hcall with rfl | hlater
            · rw [hstarter hcallee hmem] at hnone
              cases hnone
            · exact hrest call hlater callee hcallee hmem
        · rename_i found hfound
          obtain ⟨hfoundCallee, hfoundMem⟩ := Option.filter_eq_some_iff.mp hfound
          split at h
          · rename_i htrue
            obtain ⟨hcollected, hrest⟩ := ih (hsingle known found hknown).1 h
            have hdirectly : startsDirectly (threadStarters module) first = true :=
              startsDirectly_of_callee hfoundCallee (of_decide_eq_true hfoundMem)
            refine ⟨hcons (fun call => ?_) hcollected, fun call hcall callee hcallee hmem => ?_⟩
            · simp [hdirectly]
            · rcases List.mem_cons.mp hcall with rfl | hlater
              · rw [hfoundCallee, Option.some.injEq] at hcallee
                subst hcallee
                exact ⟨fun hyes => absurd (hnot.symm.trans hyes) (by decide),
                  fun _ => (hsingle known found hknown).2 htrue⟩
              · exact hrest call hlater callee hcallee hmem
          · cases h

omit hsingle

theorem excludeEachOther_spec {found : StarterFunction} {starts : List StarterCall}
    (h : excludeEachOther found starts = true) :
    ∀ start ∈ starts, mayRepeat found start.point = false ∧ ∀ other ∈ starts, other ≠ start →
      found.isPotentiallyReachable start.point other.point = false := by
  intro start hstart
  have hboth := List.all_eq_true.mp h start hstart
  rw [Bool.and_eq_true, Bool.not_eq_true', List.all_eq_true] at hboth
  refine ⟨hboth.1, fun other hother hne => ?_⟩
  have hexcluded := hboth.2 other hother
  rw [Bool.or_eq_true, decide_eq_true_eq, Bool.not_eq_true'] at hexcluded
  exact hexcluded.resolve_left hne

theorem answer_holds (fuel : Nat) {known : Known} {function : Nat}
    (hknown : AnswersHold module known) :
    AnswersHold module (startsAtMostOneThread module fuel known function).2 ∧
      ((startsAtMostOneThread module fuel known function).1 = true → SingleStart module function) := by
  induction fuel generalizing known function with
  | zero => exact ⟨hknown, fun h => by cases h⟩
  | succ fuel ih =>
      have hsingle (known : Known) (function : Nat) (hknown : AnswersHold module known) :=
        @ih known function hknown
      have hmarked : AnswersHold module (Function.update known function (some false)) := by
        intro other hother
        by_cases heq : other = function
        · rw [heq, Function.update_self] at hother
          cases hother
        · rw [Function.update_of_ne heq] at hother
          exact hknown other hother
      unfold startsAtMostOneThread
      split
      · rename_i result hresult
        exact ⟨hknown, fun htrue => hknown function (htrue ▸ hresult)⟩
      · split
        · exact ⟨hknown, fun h => by cases h⟩
        · rename_i found hfound
          have hcollectedKnown := @startingCalls_known module _ hsingle found.calls [] _ hmarked
          split
          · rename_i after heq
            rw [heq] at hcollectedKnown
            exact ⟨hcollectedKnown, fun h => by cases h⟩
          · rename_i starts after heq
            rw [heq] at hcollectedKnown
            split
            · rename_i hexclude
              have hfirst : (startingCalls module (startsAtMostOneThread module fuel) found.calls []
                  (Function.update known function (some false))).1 = some starts := by rw [heq]
              obtain ⟨hstarts, hcallees⟩ := startingCalls_spec hsingle hmarked hfirst
              have hmem {call : StarterCall} (hcall : call ∈ found.calls)
                  (hdirectly : startsDirectly (threadStarters module) call = true) : call ∈ starts :=
                (hstarts call).mpr (.inr ⟨hcall, hdirectly⟩)
              have hfunction : SingleStart module function := by
                refine .intro hfound (fun call hcall hyes callee hcallee hstarter => ?_)
                  (fun call hcall hno callee hcallee hstarter => ?_) fun start hstart hdirectly => ?_
                · exact (hcallees call hcall callee hcallee hstarter).1 hyes
                · exact (hcallees call hcall callee hcallee hstarter).2 hno
                · obtain ⟨hrepeat, hothers⟩ := excludeEachOther_spec hexclude start (hmem hstart hdirectly)
                  exact ⟨hrepeat, fun other hother hotherStarts hne =>
                    hothers other (hmem hother hotherStarts) hne⟩
              refine ⟨fun other hother => ?_, fun _ => hfunction⟩
              by_cases hsame : other = function
              · rw [hsame]
                exact hfunction
              · have hbefore : after other = some true := by
                  rw [← hother]
                  exact (Function.update_of_ne hsame _ _).symm
                exact hcollectedKnown other hbefore
            · exact ⟨hcollectedKnown, fun h => by cases h⟩

end Answers

section Runs

variable {graph : FlowGraph}

-- A path from an instruction goes on in its block, or enters one of its successors.
theorem onward_cases {first second : Point} (h : TransGen (Onward graph) first second) :
    (second.block = first.block ∧ first.index < second.index) ∨
      ∃ successor ∈ graph.successors first.block,
        ReflTransGen (Onward graph) ⟨successor, 0⟩ second := by
  have hstep {before after : Point} (hmove : Onward graph before after) :
      (after.block = before.block ∧ before.index < after.index) ∨
        after.block ∈ graph.successors before.block ∧ after.index = 0 := by
    obtain ⟨move, htakes⟩ := hmove
    cases htakes with
    | onward _ => exact .inl ⟨rfl, Nat.lt_succ_self _⟩
    | edge hedge => exact .inr ⟨List.mem_map_of_mem hedge, rfl⟩
  induction h with
  | @single second hmove =>
      rcases hstep hmove with hsame | ⟨hsuccessor, hindex⟩
      · exact .inl hsame
      · obtain ⟨block, index⟩ := second
        subst hindex
        exact .inr ⟨block, hsuccessor, .refl⟩
  | @tail before after _ hmove ih =>
      rcases ih with ⟨hblock, hindex⟩ | ⟨successor, hsuccessor, hpath⟩
      · rcases hstep hmove with ⟨hsame, hlater⟩ | ⟨hsuccessor, hzero⟩
        · exact .inl ⟨hsame.trans hblock, by omega⟩
        · obtain ⟨block, index⟩ := after
          subst hzero
          rw [hblock] at hsuccessor
          exact .inr ⟨block, hsuccessor, .refl⟩
      · exact .inr ⟨successor, hsuccessor, hpath.tail hmove⟩

theorem mayRepeat_of_path {found : StarterFunction} {point : Point}
    (h : TransGen (Onward found.graph) point point) : mayRepeat found point = true := by
  rcases onward_cases h with ⟨_, hlt⟩ | ⟨successor, hsuccessor, hpath⟩
  · exact absurd hlt (lt_irrefl _)
  · exact List.any_eq_true.mpr ⟨successor, hsuccessor, found.reachable _ _ hpath⟩

-- Once a function that starts at most one thread has started it, it is past the call that does.
def Once (module : StarterModule) (threads : List Spawn) : Moment → Prop
  | .reached none function point => SingleStart module function → threads.length ≤ 1 ∧
      (threads ≠ [] → ∃ found, module[function]? = some found ∧ ∃ start ∈ found.calls,
        startsDirectly (threadStarters module) start = true ∧
          TransGen (Onward found.graph) start.point point)
  | .running none function point => SingleStart module function → threads.length ≤ 1 ∧
      (threads ≠ [] → ∃ found, module[function]? = some found ∧ ∃ start ∈ found.calls,
        startsDirectly (threadStarters module) start = true ∧
          ReflTransGen (Onward found.graph) start.point point)
  | _ => True

-- Nothing was started before a call that may start a thread.
theorem none_before {function : Nat} (hfunction : SingleStart module function) {call : StarterCall}
    (hcall : call ∈ callsIn module function)
    (hdirectly : startsDirectly (threadStarters module) call = true) {threads : List Spawn}
    (h : Once module threads (.reached none function call.point)) : threads = [] := by
  by_contra hne
  obtain ⟨found, hfound, start, hstart, hstarts, hpath⟩ := (h hfunction).2 hne
  have hmem := mem_calls_of_callsIn hfound hcall
  cases hfunction with
  | @intro _ other hother _ _ hexclude =>
      rw [hfound, Option.some.injEq] at hother
      subst hother
      obtain ⟨hrepeat, hothers⟩ := hexclude start hstart hstarts
      by_cases hsame : call = start
      · subst hsame
        rw [mayRepeat_of_path hpath] at hrepeat
        cases hrepeat
      · have hreach := found.reachable _ _ hpath.to_reflTransGen
        rw [hothers call hmem hdirectly hsame] at hreach
        cases hreach

-- What a call adds is all there is, where nothing was started before it.
theorem once_at_call {function : Nat} (hfunction : SingleStart module function) {call : StarterCall}
    (hcall : call ∈ callsIn module function)
    (hdirectly : startsDirectly (threadStarters module) call = true) {threads : List Spawn}
    (hle : threads.length ≤ 1) : threads.length ≤ 1 ∧
      (threads ≠ [] → ∃ found, module[function]? = some found ∧ ∃ start ∈ found.calls,
        startsDirectly (threadStarters module) start = true ∧
          ReflTransGen (Onward found.graph) start.point call.point) := by
  cases hfunction with
  | @intro _ found hfound _ _ _ =>
      exact ⟨hle, fun _ => ⟨found, hfound, call, mem_calls_of_callsIn hfound hcall, hdirectly, .refl⟩⟩

theorem once {moment : Moment} {threads : List Spawn} (h : Started module moment threads) :
    Once module threads moment := by
  induction h with
  | @enter built function =>
      cases built with
      | none => exact fun _ => ⟨Nat.zero_le _, fun hne => absurd rfl hne⟩
      | some index => trivial
  | @onward built function found point next threads hfound _ hmove ih =>
      cases built with
      | some index => trivial
      | none =>
          intro hfunction
          obtain ⟨hle, hpast⟩ := ih hfunction
          refine ⟨hle, fun hne => ?_⟩
          obtain ⟨other, hother, start, hstart, hstarts, hpath⟩ := hpast hne
          rw [hfound, Option.some.injEq] at hother
          subst hother
          exact ⟨found, hfound, start, hstart, hstarts, TransGen.tail' hpath hmove⟩
  | @runs built function point threads _ ih =>
      cases built with
      | some index => trivial
      | none =>
          intro hfunction
          obtain ⟨hle, hpast⟩ := ih hfunction
          refine ⟨hle, fun hne => ?_⟩
          obtain ⟨found, hfound, start, hstart, hstarts, hpath⟩ := hpast hne
          exact ⟨found, hfound, start, hstart, hstarts, hpath.to_reflTransGen⟩
  | @starts built function call threads hcall hstarts _ ih =>
      cases built with
      | some index => trivial
      | none =>
          intro hfunction
          have hdirectly := startsDirectly_of_startsThread (threadStarters module) hstarts
          rw [none_before hfunction hcall hdirectly ih]
          exact once_at_call hfunction hcall hdirectly (le_refl 1)
  | @startsThrough built function call callee point threads inner hcall hstarts hcallee _ hinner ih _ =>
      cases built with
      | some index => trivial
      | none =>
          intro hfunction
          have hdirectly := startsDirectly_of_startsThread (threadStarters module) hstarts
          have hquiet : Quiet module (.running (builtBy none call) callee point) := by
            by_cases hstarter : callee ∈ threadStarters module
            · cases hfunction with
              | @intro _ found hfound hinto _ _ =>
                  have hmem := mem_calls_of_callsIn hfound hcall
                  refine .inr ⟨0, ?_, hinto call hmem hstarts callee hcallee hstarter⟩
                  rw [builtBy, hstarts, Bool.true_or, if_pos rfl]
            · exact .inl hstarter
          rw [none_before hfunction hcall hdirectly ih, none_started hinner hquiet, List.append_nil]
          exact once_at_call hfunction hcall hdirectly (le_refl 1)
  | @calls built function call callee point threads inner hcall hstarts hcallee _ hinner ih ihInner =>
      cases built with
      | some index => trivial
      | none =>
          intro hfunction
          have hbuilt : builtBy none call = none := by
            rw [builtBy, hstarts, handsOn]
            rfl
          rw [hbuilt] at hinner ihInner
          by_cases hstarter : callee ∈ threadStarters module
          · have hdirectly := startsDirectly_of_callee hcallee hstarter
            rw [none_before hfunction hcall hdirectly ih, List.nil_append]
            refine once_at_call hfunction hcall hdirectly (ihInner ?_).1
            cases hfunction with
            | @intro _ found hfound _ hsingle _ =>
                have hmem := mem_calls_of_callsIn hfound hcall
                exact hsingle call hmem hstarts callee hcallee hstarter
          · rw [none_started hinner (.inl hstarter), List.append_nil]
            obtain ⟨hle, hpast⟩ := ih hfunction
            refine ⟨hle, fun hne => ?_⟩
            obtain ⟨found, hfound, start, hstart, hstartStarts, hpath⟩ := hpast hne
            exact ⟨found, hfound, start, hstart, hstartStarts, hpath.to_reflTransGen⟩

-- A call of a function that is answered true starts at most one thread.
theorem at_most_one_started {fuel function : Nat}
    (h : (startsAtMostOneThread module fuel (fun _ => none) function).1 = true) {point : Point}
    {threads : List Spawn} (hrun : Started module (.running none function point) threads) :
    threads.length ≤ 1 := by
  have hnone : AnswersHold module fun _ => none := fun other hother => by cases hother
  exact (once hrun ((answer_holds fuel hnone).2 h)).1

-- One block of two instructions and a return, in which an instruction leads to itself and to those
-- after it.
def straight : FlowGraph where
  blocks := [{ length := 3, exit := .ret }]

def straightReaches (first second : Point) : Bool :=
  first.block = second.block && first.index ≤ second.index

theorem straight_reachable (first second : Point)
    (h : ReflTransGen (Onward straight) first second) : straightReaches first second = true := by
  rcases reflTransGen_iff_eq_or_transGen.mp h with rfl | hpath
  · simp [straightReaches]
  · have hnone (block : Nat) : straight.successors block = [] := by
      unfold FlowGraph.successors FlowGraph.exit straight
      cases block <;> rfl
    rcases onward_cases hpath with ⟨hblock, hindex⟩ | ⟨successor, hsuccessor, _⟩
    · simp [straightReaches, hblock, hindex.le]
    · rw [hnone] at hsuccessor
      exact absurd hsuccessor List.not_mem_nil

-- `main` calls `build` twice, and `build` constructs one thread.
def builtTwice : StarterModule := [
  { graph := straight
    calls := [{ point := ⟨0, 0⟩, callee := some 1 }, { point := ⟨0, 1⟩, callee := some 1 }]
    isPotentiallyReachable := straightReaches
    reachable := straight_reachable },
  { graph := straight
    calls := [{ point := ⟨0, 0⟩, kind := some .StdThreadCtor }]
    isPotentiallyReachable := straightReaches
    reachable := straight_reachable }]

theorem builtTwice_started : Started builtTwice (.running none 1 ⟨0, 0⟩) [(1, ⟨0, 0⟩)] :=
  @Started.starts builtTwice none 1 { point := ⟨0, 0⟩, kind := some .StdThreadCtor } [] (by decide)
    (by decide) .enter

theorem at_most_one_started_built :
    (startsAtMostOneThread builtTwice 2 (fun _ => none) 1).1 = true ∧
      Started builtTwice (.running none 1 ⟨0, 0⟩) [(1, ⟨0, 0⟩)] ∧
        [((1, ⟨0, 0⟩) : Spawn)].length ≤ 1 := by
  have hanswer : (startsAtMostOneThread builtTwice 2 (fun _ => none) 1).1 = true := by decide
  exact ⟨hanswer, builtTwice_started, at_most_one_started hanswer builtTwice_started⟩

-- A run of `main` starts two threads through the spawn of `build`.
theorem at_most_one_per_call :
    ¬∀ (module : StarterModule) (fuel function : Nat) (spawn : StarterCall),
      spawn ∈ callsIn module function → startsThread spawn = true →
        (startsAtMostOneThread module fuel (fun _ => none) function).1 = true →
          ∀ point threads, Started module (.running none 0 point) threads →
            threads.count (function, spawn.point) ≤ 1 := by
  intro h
  have hfirst : Started builtTwice (.running none 0 ⟨0, 0⟩) [(1, ⟨0, 0⟩)] :=
    @Started.calls builtTwice none 0 { point := ⟨0, 0⟩, callee := some 1 } 1 ⟨0, 0⟩ [] _ (by decide)
      (by decide) rfl .enter builtTwice_started
  have hnext : Onward straight ⟨0, 0⟩ ⟨0, 1⟩ := ⟨_, .onward (by decide)⟩
  have hsecond : Started builtTwice (.running none 0 ⟨0, 1⟩) [(1, ⟨0, 0⟩), (1, ⟨0, 0⟩)] :=
    @Started.calls builtTwice none 0 { point := ⟨0, 1⟩, callee := some 1 } 1 ⟨0, 0⟩ _ _ (by decide)
      (by decide) rfl (.onward rfl hfirst hnext) builtTwice_started
  have hcount := h builtTwice 2 1 { point := ⟨0, 0⟩, kind := some .StdThreadCtor } (by decide)
    (by decide) (by decide) _ _ hsecond
  exact absurd hcount (by decide)

end Runs

end ConcurrencyAnalyzer.ThreadCompletion
