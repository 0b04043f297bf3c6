import ConcurrencyAnalyzer.AtomicOrdering.PublicationRuns

namespace ConcurrencyAnalyzer.AtomicOrdering

open Program (Place Predicate)

section Marks

variable {events : List Event}

theorem mem_take_iff {n : Nat} {event : Event} :
    event ∈ events.take n ↔ ∃ m < n, events[m]? = some event := by
  rw [List.mem_iff_getElem?]
  constructor
  · rintro ⟨m, hm⟩
    rw [List.getElem?_take] at hm
    split at hm
    · exact ⟨m, ‹_›, hm⟩
    · cases hm
  · rintro ⟨m, hlt, hm⟩
    exact ⟨m, by rw [List.getElem?_take, if_pos hlt, hm]⟩

theorem mem_marksOf {activation n : Nat} {mark : Mark} :
    mark ∈ marksOf activation (events.take n) ↔
      ∃ m < n, ∃ event, events[m]? = some event ∧ event.activation = activation ∧
        event.mark = mark := by
  simp only [marksOf, List.mem_map, List.mem_filter, decide_eq_true_eq, mem_take_iff]
  constructor
  · rintro ⟨event, ⟨⟨m, hlt, hm⟩, hactivation⟩, hmark⟩
    exact ⟨m, hlt, event, hm, hactivation, hmark⟩
  · rintro ⟨m, hlt, event, hm, hactivation, hmark⟩
    exact ⟨event, ⟨⟨m, hlt, hm⟩, hactivation⟩, hmark⟩

-- What an activation did before an event, about an earlier one of its own.
theorem marksOf_split {m n : Nat} (hlt : m < n) {event : Event} (hevent : events[m]? = some event) :
    ∃ later, marksOf event.activation (events.take n) =
        marksOf event.activation (events.take m) ++ event.mark :: later ∧
      ∀ mark ∈ later, ∃ k < n, m < k ∧ ∃ between, events[k]? = some between ∧
        between.activation = event.activation ∧ between.mark = mark := by
  obtain ⟨hm, hget⟩ := List.getElem?_eq_some_iff.mp hevent
  have htake : events.take n = events.take m ++ event :: (events.take n).drop (m + 1) := by
    have hlength : m < (events.take n).length := by
      rw [List.length_take]
      omega
    calc events.take n = (events.take n).take m ++ (events.take n).drop m :=
          (List.take_append_drop m _).symm
      _ = events.take m ++ (events.take n).drop m := by rw [List.take_take, min_eq_left hlt.le]
      _ = events.take m ++ event :: (events.take n).drop (m + 1) := by
          rw [List.drop_eq_getElem_cons hlength, List.getElem_take, hget]
  refine ⟨marksOf event.activation ((events.take n).drop (m + 1)), ?_, fun mark hmark => ?_⟩
  · rw [htake, marksOf_append, marksOf_cons_self, ← htake]
  · obtain ⟨between, hmem, hmarkEq⟩ := List.mem_map.mp hmark
    obtain ⟨hmem, hactivation⟩ := List.mem_filter.mp hmem
    obtain ⟨k, hk⟩ := List.mem_iff_getElem?.mp hmem
    rw [List.getElem?_drop, List.getElem?_take] at hk
    split at hk
    · exact ⟨m + 1 + k, ‹_›, by omega, between, hk, by simpa using hactivation, hmarkEq⟩
    · cases hk

end Marks

variable {finder : PublicationFinder} {memory : Memory finder.module} {flag : String}
  {publication : Publication}

section Found

-- What the analysis has checked of a publication it finds.
structure Found (finder : PublicationFinder) (flag : String) (publication : Publication) : Prop where
  stores : finder.stores flag = [publication.store]
  plain : finder.plainlyStored flag = false
  kind : publication.store.operation.kind = .Store
  releasePoints : ∀ point ∈ publication.releasePoints,
    (point = publication.store.site ∧ ∃ order, publication.store.operation.order = some order ∧
      releasesAtLeast order = true) ∨
    ∃ fence ∈ publication.store.function.fencesFor, fence.site = point ∧
      releasesAtLeast fence.order = true ∧
      publication.store.function.liveDominates point publication.store.site = true

theorem found_of_findPublication (h : finder.findPublication flag = some publication) :
    Found finder flag publication := by
  unfold PublicationFinder.findPublication at h
  split at h
  · rename_i store last hstores _
    split at h
    · cases h
    · rename_i hplain
      split at h
      · rename_i order storedValue hkind horder _
        simp only [] at h
        split at h
        · split at h
          · cases h
          · split at h
            · cases h
            · rw [Option.some.injEq] at h
              subst h
              refine ⟨hstores, by simpa using hplain, hkind, fun point hpoint => ?_⟩
              rcases List.mem_append.mp hpoint with hself | hfence
              · split at hself
                · exact .inl ⟨List.mem_singleton.mp hself, order, horder, ‹_›⟩
                · exact absurd hself List.not_mem_nil
              · obtain ⟨fence, hmem, rfl⟩ := List.mem_map.mp hfence
                obtain ⟨hmem, hreleases⟩ := List.mem_filter.mp hmem
                rw [Bool.and_eq_true] at hreleases
                exact .inr ⟨fence, hmem, rfl, hreleases.1, hreleases.2⟩
        · cases h
      · cases h
  · cases h

theorem fence_of_mem {function : Function} {fence : Fence} (h : fence ∈ function.fencesFor) :
    function.instructionAt fence.site = some (.fence (some fence.order)) := by
  obtain ⟨⟨site, instruction⟩, hsite, hfence⟩ := List.mem_filterMap.mp h
  have hinstruction := (Function.mem_liveSites.mp hsite).1
  simp only [] at hfence
  split at hfence
  · rw [Option.some.injEq] at hfence
    subst hfence
    exact hinstruction
  · cases hfence

theorem Found.mem (h : Found finder flag publication) :
    publication.store ∈ finder.operationsOn flag := by
  have hmem : publication.store ∈ finder.stores flag := by
    rw [h.stores]
    exact List.mem_singleton_self _
  exact List.mem_of_mem_filter hmem

theorem flagKey_congr {object target : Program.Pointer}
    (h : resolveBaseGlobal object = resolveBaseGlobal target) :
    finder.flagKey object = finder.flagKey target := by
  unfold PublicationFinder.flagKey
  rw [h]

-- An instruction that writes to the flag through a pointer traced to it is the publishing store.
theorem Found.eq_store (h : Found finder flag publication) {function : Function}
    (hfunction : function ∈ finder.module.functions) {site : Site} {instruction : Instruction}
    (hinstruction : function.instructionAt site = some instruction)
    (hlive : site.1 ∈ function.liveBlocks) {target : Program.Pointer}
    (htarget : instruction.target = some target)
    (hname : resolveBaseGlobal target = some publication.store.object) :
    function = publication.store.function ∧ site = publication.store.site := by
  obtain ⟨_, hkey, _, ⟨object, hobject, hstore⟩, _⟩ := operation_of_mem h.mem
  have hflag : finder.flagKey target = some flag := by
    rw [flagKey_congr (hname.trans hstore.symm)]
    unfold PublicationFinder.keyOf at hkey
    rwa [hobject, Option.bind_some] at hkey
  have hsite := Function.mem_liveSites.mpr ⟨hinstruction, hlive⟩
  have hatomic {operation : AtomicOperation} (hoperation : operationOf instruction = some operation)
      (hoperated : operation.object = some target) (hkind : operation.kind ≠ .Load) :
      function = publication.store.function ∧ site = publication.store.site := by
    have hmem : (⟨site, function, operation, publication.store.object⟩ : FlagAccess) ∈
        function.operationsIn := by
      refine List.mem_filterMap.mpr ⟨(site, instruction), hsite, ?_⟩
      simp only [hoperation, Option.bind_some, hoperated, hname, Option.map_some]
    have hon : (⟨site, function, operation, publication.store.object⟩ : FlagAccess) ∈
        finder.stores flag := by
      refine List.mem_filter.mpr ⟨List.mem_filter.mpr ⟨List.mem_flatMap.mpr ⟨function, hfunction,
        hmem⟩, ?_⟩, decide_eq_true hkind⟩
      rw [decide_eq_true_eq, PublicationFinder.keyOf, hoperated, Option.bind_some]
      exact hflag
    rw [h.stores, List.mem_singleton] at hon
    exact ⟨congrArg FlagAccess.function hon, congrArg FlagAccess.site hon⟩
  cases instruction with
  | store written value =>
      rw [Instruction.target, Option.some.injEq] at htarget
      subst htarget
      have hplain : finder.plainlyStored flag = true :=
        List.any_eq_true.mpr ⟨function, hfunction, List.any_eq_true.mpr
          ⟨_, hsite, decide_eq_true hflag⟩⟩
      rw [h.plain] at hplain
      cases hplain
  | atomicStore written order value =>
      rw [Instruction.target] at htarget
      exact hatomic rfl htarget (by simp)
  | readModifyWrite written order =>
      rw [Instruction.target] at htarget
      exact hatomic rfl htarget (by simp)
  | _ => cases htarget

end Found

section Order

-- An event is one that an access makes.
def RanAt (events : List Event) (n : Nat) (access : FlagAccess) : Prop :=
  ∃ event, events[n]? = some event ∧ event.function = access.function.id ∧ event.mark = .ran access.site

-- An event is an acquire of a load of the flag that returned what the publishing store wrote, or comes
-- after one in its thread.
def AfterPublication (finder : PublicationFinder) (flag : String) (publication : Publication)
    (events : List Event) (store n : Nat) : Prop :=
  ∃ load acquire, ReadsFrom events load store ∧ Acquires finder.module events load acquire ∧
    (acquire = n ∨ ThreadOrder events acquire n) ∧ RanAt events store publication.store ∧
    ∃ access ∈ finder.loads flag, RanAt events load access

variable {state : State} {n : Nat} {event : Event} {site : Site}

theorem StateSound.walk (h : StateSound finder memory flag publication state)
    (hevent : state.events[n]? = some event) (hmark : event.mark = .ran site) :
    ∃ function instruction, finder.module.functionWithId event.function = some function ∧
      function.instructionAt site = some instruction ∧
      event.instruction finder.module = some instruction ∧
      Walk function (marksOf event.activation (state.events.take n)) site.1 site.2 := by
  have hsound := h.events n event hevent
  obtain ⟨instruction, hinstruction⟩ := Option.isSome_iff_exists.mp (hsound.runs site hmark)
  have hat := hinstruction
  simp only [Event.instruction, hmark] at hat
  obtain ⟨function, hfunction, hget⟩ := Option.bind_eq_some_iff.mp hat
  exact ⟨function, instruction, hfunction, hget, hinstruction, hsound.walks function site hfunction hmark⟩

theorem StateSound.owned (h : StateSound finder memory flag publication state)
    (hevent : state.events[n]? = some event) {m : Nat} (hlt : m < n) {earlier : Event}
    (hearlier : state.events[m]? = some earlier) (hactivation : earlier.activation = event.activation) :
    earlier.thread = event.thread ∧ earlier.function = event.function :=
  (h.events n event hevent).owned earlier (mem_take_iff.mpr ⟨m, hlt, hearlier⟩) hactivation

-- A load of the flag that returns a value that was written returns the one of the publishing store.
theorem StateSound.reads_store (h : StateSound finder memory flag publication state)
    (hfound : Found finder flag publication) {load : FlagAccess}
    (hload : Reads finder flag publication load) (hevent : state.events[n]? = some event)
    (hfunction : event.function = load.function.id) (hmark : event.mark = .ran load.site) {read : Read}
    (hread : event.read = some read) {source : Nat} (hsource : read.source = some source) :
    RanAt state.events source publication.store := by
  have hsound := h.events n event hevent
  obtain ⟨store, hstore, hwrites⟩ := hsound.sources read source hread hsource
  rw [List.getElem?_take] at hstore
  split at hstore
  · have hplace := hsound.whole load hload hfunction hmark read hread
    obtain ⟨instruction, target, hinstruction, htarget, hname⟩ :=
      (h.events source store hstore).traced _ hwrites (by rw [hplace]; rfl)
    cases hstoreMark : store.mark with
    | took start finish => simp [Event.instruction, hstoreMark] at hinstruction
    | ran site =>
        obtain ⟨function, other, hrun, hget, hother, hwalk⟩ := h.walk hstore hstoreMark
        rw [hinstruction, Option.some.injEq] at hother
        subst hother
        obtain ⟨hmem, hid⟩ := Module.mem_of_functionWithId hrun
        obtain ⟨rfl, rfl⟩ := hfound.eq_store hmem hget hwalk.live htarget hname
        exact ⟨store, hstore, hid.symm, hstoreMark⟩
  · cases hstore

-- Past an arm of the published value, a reader has loaded what the publishing store wrote.
theorem StateSound.observed (h : StateSound finder memory flag publication state)
    (hfound : Found finder flag publication) {load : FlagAccess}
    (hload : Reads finder flag publication load) (hevent : state.events[n]? = some event)
    (hmark : event.mark = .ran site) (hfunction : event.function = load.function.id)
    {arm : Nat × Nat} (harm : arm ∈ load.observedArms publication.published)
    (hdominates : load.function.cfg.edgeDominates arm.1 arm.2 site.1 = true) :
    ∃ l < n, ∃ loaded, state.events[l]? = some loaded ∧ loaded.activation = event.activation ∧
      loaded.mark = .ran load.site ∧ ∃ source, ReadsFrom state.events l source ∧
        RanAt state.events source publication.store := by
  obtain ⟨function, instruction, hrun, _, _, hwalk⟩ := h.walk hevent hmark
  have hsame : function = load.function := by
    rw [hfunction, Module.functionWithId_of_mem (instruction_of_load hload.1).1,
      Option.some.injEq] at hrun
    exact hrun.symm
  subst hsame
  obtain ⟨m, hm, taken, htaken, hactivation, htook⟩ :=
    mem_marksOf.mp (hwalk.took_of_edgeDominates hdominates)
  have hreader := (h.owned hevent hm htaken hactivation).2
  obtain ⟨loaded, hmem, hsameActivation, hloaded, read, source, hread, hsource⟩ :=
    (h.events m taken htaken).observed load hload (hreader.trans hfunction) arm harm htook
  obtain ⟨l, hl, hget⟩ := mem_take_iff.mp hmem
  have hloadedFunction := (h.owned hevent (hl.trans hm) hget (hsameActivation.trans hactivation)).2
  exact ⟨l, hl.trans hm, loaded, hget, hsameActivation.trans hactivation, hloaded, source,
    ⟨loaded, read, hget, hread, hsource⟩,
    h.reads_store hfound hload hget (hloadedFunction.trans hfunction) hloaded hread hsource⟩

theorem operation_at {function : Function} {instruction : Instruction}
    (hfunction : function ∈ finder.module.functions) (hevent : event.function = function.id)
    (hmark : event.mark = .ran site) (hinstruction : function.instructionAt site = some instruction) :
    event.operation finder.module = operationOf instruction := by
  simp only [Event.operation, Event.instruction, hmark, hevent, Module.functionWithId_of_mem hfunction,
    Option.bind_some, hinstruction]

theorem operation_of_access {access : FlagAccess} (haccess : access ∈ finder.operationsOn flag)
    (hevent : event.function = access.function.id) (hmark : event.mark = .ran access.site) :
    event.operation finder.module = some access.operation := by
  obtain ⟨hfunction, _, _, _, instruction, hinstruction, hoperation⟩ := operation_of_mem haccess
  rw [operation_at hfunction hevent hmark hinstruction, hoperation]

theorem operation_of_fence {function : Function} (hfunction : function ∈ finder.module.functions)
    {fence : Fence} (hfence : fence ∈ function.fencesFor) (hevent : event.function = function.id)
    (hmark : event.mark = .ran fence.site) :
    event.operation finder.module = some { kind := .Fence, order := some fence.order } :=
  operation_at hfunction hevent hmark (fence_of_mem hfence)

theorem StateSound.threadOrder (h : StateSound finder memory flag publication state)
    (hevent : state.events[n]? = some event) {m : Nat} (hlt : m < n) {earlier : Event}
    (hearlier : state.events[m]? = some earlier) (hactivation : earlier.activation = event.activation) :
    ThreadOrder state.events m n :=
  ⟨earlier, event, hearlier, hevent, hlt, (h.owned hevent hlt hearlier hactivation).1⟩

-- A reader's access that is marked comes after an acquiring observation of the publishing store.
theorem StateSound.acquired (h : StateSound finder memory flag publication state)
    (hfound : Found finder flag publication) {load : FlagAccess}
    (hload : Reads finder flag publication load) (hevent : state.events[n]? = some event)
    (hmark : event.mark = .ran site)
    (hmarked : ((event.function, site), true) ∈ finder.observingAccesses publication load) :
    ∃ store, AfterPublication finder flag publication state.events store n := by
  unfold PublicationFinder.observingAccesses at hmarked
  split at hmarked
  · exact absurd hmarked List.not_mem_nil
  · rename_i order horder
    obtain ⟨access, _, hmarked⟩ := List.mem_filterMap.mp hmarked
    simp only [] at hmarked
    split at hmarked
    · cases hmarked
    · simp only [Option.some.injEq, Prod.mk.injEq] at hmarked
      obtain ⟨⟨hfunction, rfl⟩, hordered⟩ := hmarked
      obtain ⟨arm, harm, hacquires⟩ := List.any_eq_true.mp hordered
      obtain ⟨harm, hdominates⟩ := List.mem_filter.mp harm
      have hon : load ∈ finder.operationsOn flag := List.mem_of_mem_filter hload.1
      have hkind : load.operation.kind = .Load := by
        simpa using (List.mem_filter.mp hload.1).2
      rcases Bool.or_eq_true _ _ ▸ hacquires with hacquires | hacquires
      · obtain ⟨l, hl, loaded, hget, hactivation, hloaded, source, hreads, hstore⟩ :=
          h.observed hfound hload hevent hmark hfunction.symm harm hdominates
        have hloadedFunction := (h.owned hevent hl hget hactivation).2.trans hfunction.symm
        have hoperation := operation_of_access hon hloadedFunction hloaded
        refine ⟨source, l, l, hreads, ⟨loaded, loaded, order, hget, hget, ?_, ?_, hacquires, .inl rfl⟩,
          .inr (h.threadOrder hevent hl hget hactivation), hstore, load, hload.1, loaded, hget,
          hloadedFunction, hloaded⟩
        · rw [hoperation, Option.map_some, hkind]
        · rw [hoperation, Option.bind_some, horder]
      · obtain ⟨fence, hfence, hpasses⟩ := List.any_eq_true.mp hacquires
        simp only [Bool.and_eq_true] at hpasses
        obtain ⟨⟨hacquires, harmDominates⟩, hfenceDominates⟩ := hpasses
        have hmember := (instruction_of_load hload.1).1
        -- The fence the access comes after, and that comes after a load on the arm.
        have hacquire {k : Nat} {fenced : Event} (hk : state.events[k]? = some fenced)
            (hfencedFunction : fenced.function = load.function.id)
            (hfenced : fenced.mark = .ran fence.site)
            (hafter : k = n ∨ ThreadOrder state.events k n) :
            ∃ store, AfterPublication finder flag publication state.events store n := by
          obtain ⟨l, hl, loaded, hget, hactivation, hloaded, source, hreads, hstore⟩ :=
            h.observed hfound hload hk hfenced hfencedFunction harm harmDominates
          obtain ⟨hthread, hloadedFunction⟩ := h.owned hk hl hget hactivation
          have hreader := hloadedFunction.trans hfencedFunction
          have hoperation := operation_of_access hon hreader hloaded
          have hfenceOperation := operation_of_fence hmember hfence hfencedFunction hfenced
          refine ⟨source, l, k, hreads, ⟨loaded, fenced, fence.order, hget, hk, ?_, ?_, hacquires,
            .inr ⟨hl, hthread, ?_⟩⟩, hafter, hstore, load, hload.1, loaded, hget, hreader, hloaded⟩
          · rw [hoperation, Option.map_some, hkind]
          · rw [hfenceOperation, Option.bind_some]
          · rw [hfenceOperation, Option.map_some]
        obtain ⟨function, instruction, hrun, _, _, hwalk⟩ := h.walk hevent hmark
        have hsame : function = load.function := by
          rw [← hfunction, Module.functionWithId_of_mem hmember, Option.some.injEq] at hrun
          exact hrun.symm
        subst hsame
        rcases hwalk.ran_of_liveDominates (fence_of_mem hfence) hfenceDominates with heq | hran
        · exact hacquire hevent hfunction.symm (heq ▸ hmark) (.inl rfl)
        · obtain ⟨k, hk, fenced, hget, hactivation, hfenced⟩ := mem_marksOf.mp hran
          have hfencedFunction := (h.owned hevent hk hget hactivation).2.trans hfunction.symm
          exact hacquire hget hfencedFunction hfenced
            (.inr (h.threadOrder hevent hk hget hactivation))

theorem Found.not_fence (h : Found finder flag publication) {fence : Fence}
    (hfence : fence ∈ publication.store.function.fencesFor) : fence.site ≠ publication.store.site := by
  obtain ⟨_, _, _, ⟨object, hobject, _⟩, instruction, hinstruction, hoperation⟩ := operation_of_mem h.mem
  intro hsame
  have hat := fence_of_mem hfence
  rw [hsame, hinstruction, Option.some.injEq] at hat
  subst hat
  rw [operationOf, Option.some.injEq] at hoperation
  rw [← hoperation] at hobject
  cases hobject

theorem Found.releases_self (h : Found finder flag publication) {s : Nat}
    (hstore : RanAt state.events s publication.store) {order : MemoryOrder}
    (horder : publication.store.operation.order = some order)
    (hreleases : releasesAtLeast order = true) : Releases finder.module state.events s s := by
  obtain ⟨store, hget, hfunction, hmark⟩ := hstore
  have hoperation := operation_of_access h.mem hfunction hmark
  refine ⟨store, store, order, hget, hget, ?_, ?_, hreleases, .inl rfl⟩
  · rw [hoperation, Option.map_some, h.kind]
  · rw [hoperation, Option.bind_some, horder]

theorem StateSound.releases_fence (h : StateSound finder memory flag publication state)
    (hfound : Found finder flag publication) {s k : Nat} {store fenced : Event}
    (hstore : state.events[s]? = some store) (hfunction : store.function = publication.store.function.id)
    (hmark : store.mark = .ran publication.store.site) (hlt : k < s)
    (hfenced : state.events[k]? = some fenced) (hactivation : fenced.activation = store.activation)
    {fence : Fence} (hfence : fence ∈ publication.store.function.fencesFor)
    (hreleases : releasesAtLeast fence.order = true) (hfenceMark : fenced.mark = .ran fence.site) :
    Releases finder.module state.events k s := by
  obtain ⟨hthread, hsameFunction⟩ := h.owned hstore hlt hfenced hactivation
  have hoperation := operation_of_access hfound.mem hfunction hmark
  have hfenceOperation := operation_of_fence (operation_of_mem hfound.mem).1 hfence
    (hsameFunction.trans hfunction) hfenceMark
  refine ⟨fenced, store, fence.order, hfenced, hstore, ?_, ?_, hreleases, .inr ⟨hlt, hthread, ?_⟩⟩
  · rw [hoperation, Option.map_some, hfound.kind]
  · rw [hfenceOperation, Option.bind_some]
  · rw [hfenceOperation, Option.map_some]

-- The publishing function runs in one activation.
theorem StateSound.same_activation (h : StateSound finder memory flag publication state) {m s : Nat}
    {first store : Event} (hfirst : state.events[m]? = some first)
    (hstore : state.events[s]? = some store)
    (hfirstFunction : first.function = publication.store.function.id)
    (hfunction : store.function = publication.store.function.id) :
    first.activation = store.activation := by
  rcases lt_trichotomy m s with hlt | rfl | hgt
  · exact (h.events s store hstore).single first (mem_take_iff.mpr ⟨m, hlt, hfirst⟩) hfirstFunction
      hfunction
  · rw [hfirst, Option.some.injEq] at hstore
    rw [hstore]
  · exact ((h.events m first hfirst).single store (mem_take_iff.mpr ⟨s, hgt, hstore⟩) hfunction
      hfirstFunction).symm

-- An access of the publisher that is marked comes before a release of the publishing store.
theorem StateSound.released (h : StateSound finder memory flag publication state)
    (hfound : Found finder flag publication)
    (hacyclic : ¬Relation.TransGen
      (fun block next => next ∈ publication.store.function.successors block)
      publication.store.site.1 publication.store.site.1)
    {s m : Nat} {store first : Event} (hstore : state.events[s]? = some store)
    (hfunction : store.function = publication.store.function.id)
    (hmark : store.mark = .ran publication.store.site) (hfirst : state.events[m]? = some first)
    (hfirstFunction : first.function = publication.store.function.id)
    (hfirstMark : first.mark = .ran site)
    (hdominates : publication.store.function.liveDominates site publication.store.site = true)
    {point : Site} (hpoint : point ∈ publication.releasePoints)
    (hbefore : publication.store.function.liveDominates site point = true) :
    ∃ release, Releases finder.module state.events release s ∧
      (m = release ∨ ThreadOrder state.events m release) := by
  have hactivation := h.same_activation hfirst hstore hfirstFunction hfunction
  have hmember := (operation_of_mem hfound.mem).1
  obtain ⟨function, instruction, hrun, hinstruction, _, hwalkFirst⟩ := h.walk hfirst hfirstMark
  obtain ⟨other, storeInstruction, hother, hstoreInstruction, _, hwalk⟩ := h.walk hstore hmark
  rw [hfirstFunction, Module.functionWithId_of_mem hmember, Option.some.injEq] at hrun
  rw [hfunction, Module.functionWithId_of_mem hmember, Option.some.injEq] at hother
  subst hrun hother
  have hle : m ≤ s := by
    by_contra hgt
    obtain ⟨later, hsplit, _⟩ := marksOf_split (not_le.mp hgt) hstore
    rw [hactivation, hsplit, hmark] at hwalkFirst
    exact hacyclic (hwalkFirst.not_ran_before hinstruction hdominates)
  rcases hfound.releasePoints point hpoint with ⟨rfl, order, horder, hreleases⟩ |
    ⟨fence, hfence, rfl, hreleases, hafter⟩
  · refine ⟨s, hfound.releases_self ⟨store, hstore, hfunction, hmark⟩ horder hreleases, ?_⟩
    rcases hle.eq_or_lt with heq | hlt
    · exact .inl heq
    · exact .inr (h.threadOrder hstore hlt hfirst hactivation)
  · have hne := hfound.not_fence hfence
    rcases hle.eq_or_lt with rfl | hlt
    · -- The store would stand between itself and a fence it dominates.
      rw [hfirst, Option.some.injEq] at hstore
      subst hstore
      rw [hfirstMark, Mark.ran.injEq] at hmark
      subst hmark
      rcases hwalk.ran_of_liveDominates (fence_of_mem hfence) hafter with heq | hran
      · exact absurd heq hne
      · obtain ⟨start, rest, hsplit⟩ := List.append_of_mem hran
        rw [hsplit] at hwalk
        rcases hwalk.at_of_ran.ran_of_liveDominates hinstruction hbefore with heq | hran
        · exact absurd heq.symm hne
        · obtain ⟨earlier, between, rfl⟩ := List.append_of_mem hran
          rw [List.append_assoc, List.cons_append] at hwalk
          rcases hwalk.after_ran with ⟨_, hlt⟩ | hcycle
          · exact absurd hlt (lt_irrefl _)
          · exact absurd hcycle hacyclic
    · obtain ⟨later, hsplit, hlater⟩ := marksOf_split hlt hfirst
      rw [← hactivation, hsplit, hfirstMark] at hwalk
      rcases hwalk.ran_between hinstruction (fence_of_mem hfence) hbefore hafter with heq | hran
      · exact absurd heq hne
      · rcases List.mem_cons.mp hran with hsame | hran
        · rw [Mark.ran.injEq] at hsame
          exact ⟨m, h.releases_fence hfound hstore hfunction hmark hlt hfirst hactivation hfence
            hreleases (hsame ▸ hfirstMark), .inl rfl⟩
        · obtain ⟨k, hk, hmk, between, hget, hsameActivation, hbetween⟩ := hlater _ hran
          exact ⟨k, h.releases_fence hfound hstore hfunction hmark hk hget
            (hsameActivation.trans hactivation) hfence hreleases hbetween,
            .inr (h.threadOrder hget hmk hfirst hsameActivation.symm)⟩

theorem StateSound.exists_release (h : StateSound finder memory flag publication state)
    (hfound : Found finder flag publication) {point : Site} (hpoint : point ∈ publication.releasePoints)
    {s : Nat} (hran : RanAt state.events s publication.store) :
    ∃ release, Releases finder.module state.events release s := by
  rcases hfound.releasePoints point hpoint with ⟨_, order, horder, hreleases⟩ |
    ⟨fence, hfence, rfl, hreleases, hdominates⟩
  · exact ⟨s, hfound.releases_self hran horder hreleases⟩
  · obtain ⟨store, hstore, hfunction, hmark⟩ := hran
    obtain ⟨function, _, hrun, _, _, hwalk⟩ := h.walk hstore hmark
    rw [hfunction, Module.functionWithId_of_mem (operation_of_mem hfound.mem).1,
      Option.some.injEq] at hrun
    subst hrun
    rcases hwalk.ran_of_liveDominates (fence_of_mem hfence) hdominates with heq | hbefore
    · exact absurd heq (hfound.not_fence hfence)
    · obtain ⟨k, hk, fenced, hget, hactivation, hfenced⟩ := mem_marksOf.mp hbefore
      exact ⟨k, h.releases_fence hfound hstore hfunction hmark hk hget hactivation hfence hreleases
        hfenced⟩

theorem ThreadOrder.happensBefore {events : List Event} {first second third : Nat}
    (h : first = second ∨ ThreadOrder events first second)
    (hthen : HappensBefore finder.module events second third) :
    HappensBefore finder.module events first third := by
  rcases h with rfl | h
  · exact hthen
  · exact .trans (.program h) hthen

end Order

-- In an orderly run of a program whose flag is decisive, an access that is marked as coming after the
-- publication does, and every access marked as coming before it happens before that one.
theorem publication_orders (finder : PublicationFinder) (memory : Memory finder.module) (flag : String)
    (publication : Publication) (hpublication : finder.findPublication flag = some publication)
    (hdecisive : Decisive finder memory flag publication) (main : String) (state : State)
    (hreachable : Reachable memory (Orderly finder flag publication) main state) (n : Nat)
    (event : Event) (hevent : state.events[n]? = some event) (site : Site)
    (hmark : event.mark = .ran site)
    (hafter : flag ∈ (finder.run (event.function, site)).afterAcquire) :
    (∃ store release, Releases finder.module state.events release store ∧
        AfterPublication finder flag publication state.events store n) ∧
      ∀ m first access, state.events[m]? = some first → first.mark = .ran access →
        flag ∈ (finder.run (first.function, access)).beforeRelease →
          HappensBefore finder.module state.events m n := by
  have hsound := stateSound_reachable hdecisive hreachable
  have hfound := found_of_findPublication hpublication
  have hobserves : finder.afterAcquire flag (event.function, site) = true := by
    simpa using (List.mem_filter.mp (List.mem_toFinset.mp hafter)).2
  unfold PublicationFinder.afterAcquire at hobserves
  simp only [hpublication] at hobserves
  obtain ⟨load, hload, hobserves⟩ := List.any_eq_true.mp hobserves
  rw [Bool.and_eq_true, decide_eq_true_eq, decide_eq_true_eq] at hobserves
  obtain ⟨store, hacquired⟩ := hsound.acquired hfound ⟨hload, hobserves.1⟩ hevent hmark hobserves.2
  have hcomes := hacquired
  obtain ⟨load, acquire, hreads, hacquires, hthen, hran, _⟩ := hcomes
  obtain ⟨stored, hstore, hfunction, hstoreMark⟩ := hran
  constructor
  · obtain ⟨point, hpoint⟩ := List.exists_mem_of_ne_nil _ hdecisive.releases
    obtain ⟨release, hreleases⟩ := hsound.exists_release hfound hpoint
      ⟨stored, hstore, hfunction, hstoreMark⟩
    exact ⟨store, release, hreleases, hacquired⟩
  · intro m first access hfirst hfirstMark hbefore
    have hpublished : finder.beforeRelease flag (first.function, access) = true := by
      simpa using (List.mem_filter.mp (List.mem_toFinset.mp hbefore)).2
    unfold PublicationFinder.beforeRelease at hpublished
    simp only [hpublication] at hpublished
    rw [decide_eq_true_eq] at hpublished
    obtain ⟨site, hsite, hpublished⟩ := List.mem_map.mp hpublished
    simp only [Prod.mk.injEq] at hpublished
    obtain ⟨⟨hfirstFunction, rfl⟩, hordered⟩ := hpublished
    obtain ⟨point, hpoint, hpasses⟩ := List.any_eq_true.mp hordered
    obtain ⟨release, hreleases, hcomes⟩ := hsound.released hfound hdecisive.acyclic hstore hfunction
      hstoreMark hfirst hfirstFunction.symm hfirstMark (List.mem_filter.mp hsite).2 hpoint hpasses
    refine ThreadOrder.happensBefore hcomes ?_
    have hsynchronizes := HappensBefore.synchronizes hreleases hreads hacquires
    rcases hthen with rfl | hthen
    · exact hsynchronizes
    · exact .trans hsynchronizes (.program hthen)

section Examples

-- A thread writes `data` and publishes it through `flag`. Another reads `data` if `flag` compares with
-- a bound in some way.
def publisher : Function where
  id := "publisher"
  blocks :=
    [{ instructions :=
        [.store (.global "data") (.constant (.ofNat 32 7)),
          .atomicStore (.global "flag") (some .Release) (.constant (.ofNat 32 1))]
       terminator := .ret }]

def reader (predicate : Predicate) (bound : Nat) : Function where
  id := "reader"
  blocks :=
    [{ instructions :=
        [.atomicLoad (.global "flag") (some .Acquire) 32,
          .icmp predicate (.result (0, 0)) (.constant (.ofNat 32 bound))]
       terminator := .branch (.result (0, 1)) 1 2 },
     { instructions := [.other []], terminator := .ret },
     { terminator := .ret }]
  entryExists := Nat.zero_lt_succ 2
  successorsExist := by simp [Terminator.successors]

def starter : Function where
  id := "main"
  blocks := [{ instructions := [.spawn "publisher" [], .spawn "reader" []], terminator := .ret }]

def publishing (predicate : Predicate) (bound : Nat) : PublicationFinder where
  module :=
    { functions := [starter, publisher, reader predicate bound]
      globals := [{ name := "flag", initializer := some (.ofNat 32 0) }, { name := "data" }]
      idsDistinct := by simp [starter, publisher, reader] }
  directCallees := []
  spawns :=
    [{ entryFunctionId := "publisher", location := { function := "main" } },
      { entryFunctionId := "reader", location := { function := "main" } }]
  accesses := [("publisher", (0, 0)), ("reader", (1, 0))]

-- All of memory is zero at first.
def zeroed (predicate : Predicate) (bound : Nat) : Memory (publishing predicate bound).module where
  value _ := .ofNat 32 0
  initialized name global initializer hglobal hinitializer := by
    have hmem := List.mem_of_find?_eq_some hglobal
    simp only [publishing, List.mem_cons, List.not_mem_nil, or_false] at hmem
    rcases hmem with rfl | rfl
    · exact Option.some.inj hinitializer
    · cases hinitializer

def dataPlace : Place := ⟨.global "data", 0⟩

def readyPlace : Place := ⟨.global "flag", 0⟩

def threadsWith (index : Nat) (frame : Frame) : List (List Frame) :=
  [[{ function := "main", activation := 0, index := 2 }],
    [{ function := "publisher", activation := 1, index := index }], [frame]]

def freshReader : Frame where
  function := "reader"
  activation := 2

def startedPublisher : State where
  threads :=
    [[{ function := "main", activation := 0, index := 1 }],
      [{ function := "publisher", activation := 1 }]]
  fresh := 2
  events := [⟨0, 0, "main", .ran (0, 0), [], none⟩]

def startedBoth : State where
  threads := threadsWith 0 freshReader
  fresh := 3
  events := [⟨0, 0, "main", .ran (0, 0), [], none⟩, ⟨0, 0, "main", .ran (0, 1), [], none⟩]

def wroteData : State where
  threads := threadsWith 1 freshReader
  fresh := 4
  events :=
    [⟨0, 0, "main", .ran (0, 0), [], none⟩, ⟨0, 0, "main", .ran (0, 1), [], none⟩,
      ⟨1, 1, "publisher", .ran (0, 0), [(dataPlace, .ofNat 32 7)], none⟩]

def comparedReader (value : APInt) : Frame :=
  (freshReader.result (value.zextOrTrunc 32)).result (.ofNat 1 1)

-- The reader loads a value, finds that it compares and reads `data`.
def readData (index fresh : Nat) (events : List Event) (loaded : Read) : State where
  threads :=
    threadsWith index (({ comparedReader loaded.value with block := 1, index := 0 } : Frame).result
      (.ofNat 32 0))
  fresh := fresh + 4
  events := events ++
    [⟨2, 2, "reader", .ran (0, 0), [], some loaded⟩, ⟨2, 2, "reader", .ran (0, 1), [], none⟩,
      ⟨2, 2, "reader", .took 0 1, [], none⟩, ⟨2, 2, "reader", .ran (1, 0), [], none⟩]

variable {predicate : Predicate} {bound : Nat} {Meets : State → Event → Prop}

theorem Reachable.event {module : Module} {memory : Memory module} {main : String} {state after : State}
    {event : Event} (h : Reachable memory Meets main state) (hstep : Step memory state (some event) after)
    (hmeets : Meets state event) : Reachable memory Meets main after :=
  .step h hstep fun _ hadded => Option.some.inj hadded ▸ hmeets

theorem wroteData_reachable
    (hmeets : ∀ state event, state.events ++ [event] <+: wroteData.events → Meets state event) :
    Reachable (zeroed predicate bound) Meets "main" wroteData := by
  have hpublisher : Step (zeroed predicate bound) (initialState "main")
      (some ⟨0, 0, "main", .ran (0, 0), [], none⟩) startedPublisher :=
    @Step.run _ _ (initialState "main") 0 _ _ [] [] _ starter _ _ _ _ rfl rfl rfl (.spawn .nil) rfl
  have hreader : Step (zeroed predicate bound) startedPublisher
      (some ⟨0, 0, "main", .ran (0, 1), [], none⟩) startedBoth :=
    @Step.run _ _ startedPublisher 0 { function := "main", activation := 0, index := 1 } _ [] [] _
      starter _ _ _ _ rfl rfl rfl (.spawn .nil) rfl
  have hwrites : Step (zeroed predicate bound) startedBoth
      (some ⟨1, 1, "publisher", .ran (0, 0), [(dataPlace, .ofNat 32 7)], none⟩) wroteData :=
    @Step.run _ _ startedBoth 1 { function := "publisher", activation := 1 } _ [] [] [] publisher _ _ _ _
      rfl rfl rfl (.store (fun _ h => by cases h) rfl rfl) rfl
  have hstarted := Reachable.initial.event hpublisher (hmeets _ _ ⟨_, rfl⟩)
  exact (hstarted.event hreader (hmeets _ _ ⟨_, rfl⟩)).event hwrites (hmeets _ _ ⟨[], rfl⟩)

theorem readData_reachable {index fresh : Nat} {events : List Event} {loaded : Read}
    (hreachable : Reachable (zeroed predicate bound) Meets "main"
      ⟨threadsWith index freshReader, fresh, events⟩)
    (hplace : loaded.place = readyPlace) (hreturns : Returns (zeroed predicate bound) events loaded)
    (hcompare : (loaded.value.zextOrTrunc 32).compare predicate (.ofNat 32 bound) =
      some (.ofNat 1 1))
    (hmeets : ∀ state event, state.events ++ [event] <+: (readData index fresh events loaded).events →
      Meets state event) :
    Reachable (zeroed predicate bound) Meets "main" (readData index fresh events loaded) := by
  let ran : Event := ⟨2, 2, "reader", .ran (0, 0), [], some loaded⟩
  let compared : Event := ⟨2, 2, "reader", .ran (0, 1), [], none⟩
  let took : Event := ⟨2, 2, "reader", .took 0 1, [], none⟩
  have hloads : Step (zeroed predicate bound) ⟨threadsWith index freshReader, fresh, events⟩ (some ran)
      ⟨threadsWith index (freshReader.result (loaded.value.zextOrTrunc 32)), fresh + 1,
        events ++ [ran]⟩ :=
    @Step.run _ _ _ 2 _ _ [] [] [] (reader predicate bound) _ _ _ _ rfl rfl rfl
      (.atomicLoad hplace hreturns) rfl
  have hcompares : Step (zeroed predicate bound)
      ⟨threadsWith index (freshReader.result (loaded.value.zextOrTrunc 32)), fresh + 1,
        events ++ [ran]⟩ (some compared)
      ⟨threadsWith index (comparedReader loaded.value), fresh + 2, events ++ [ran] ++ [compared]⟩ :=
    @Step.run _ _ _ 2 _ _ [] [] [] (reader predicate bound) _ _ _ _ rfl rfl rfl
      (.icmp rfl rfl fun known hknown => Option.some.inj (hcompare.symm.trans hknown)) rfl
  have htakes : Step (zeroed predicate bound)
      ⟨threadsWith index (comparedReader loaded.value), fresh + 2, events ++ [ran] ++ [compared]⟩
      (some took)
      ⟨threadsWith index { comparedReader loaded.value with block := 1, index := 0 }, fresh + 3,
        events ++ [ran] ++ [compared] ++ [took]⟩ :=
    @Step.branch _ _ _ 2 _ [] (reader predicate bound) _ 1 _ rfl rfl rfl rfl ⟨.ofNat 1 1, rfl, rfl⟩ rfl
  have hreads : Step (zeroed predicate bound)
      ⟨threadsWith index { comparedReader loaded.value with block := 1, index := 0 }, fresh + 3,
        events ++ [ran] ++ [compared] ++ [took]⟩
      (some ⟨2, 2, "reader", .ran (1, 0), [], none⟩)
      ⟨(readData index fresh events loaded).threads, fresh + 4,
        events ++ [ran] ++ [compared] ++ [took] ++ [⟨2, 2, "reader", .ran (1, 0), [], none⟩]⟩ :=
    @Step.run _ _ _ 2 _ _ [] [] [] (reader predicate bound) _ _ _ _ rfl rfl rfl .other rfl
  have hfirst := hreachable.event hloads (hmeets _ _ (by simp [readData, ran]))
  have hsecond := hfirst.event hcompares (hmeets _ _ (by simp [readData, ran, compared]))
  have hthird := hsecond.event htakes (hmeets _ _ (by simp [readData, ran, compared, took]))
  have hfourth := hthird.event hreads (hmeets _ _ (by simp [readData, ran, compared, took]))
  simpa [readData] using hfourth

-- Where no load returns a value that was written, only events of one thread are ordered.
theorem threadOrder_of_happensBefore {module : Module} {events : List Event}
    (hreads : ∀ event ∈ events, ∀ read, event.read = some read → read.source = none) {m n : Nat}
    (h : HappensBefore module events m n) : ThreadOrder events m n := by
  induction h with
  | program h => exact h
  | synchronizes _ hfrom _ =>
      obtain ⟨event, read, hevent, hread, hsource⟩ := hfrom
      rw [hreads event (List.mem_of_getElem? hevent) read hread] at hsource
      cases hsource
  | trans _ _ hfirst hsecond =>
      obtain ⟨before, middle, hbefore, hmiddle, hlt, hthread⟩ := hfirst
      obtain ⟨other, after, hother, hafter, hltOther, hthreadOther⟩ := hsecond
      rw [hmiddle, Option.some.injEq] at hother
      subst hother
      exact ⟨before, after, hbefore, hafter, hlt.trans hltOther, hthread.trans hthreadOther⟩

def initialRead : Read := ⟨readyPlace, none, .ofNat 32 0⟩

-- `flag >= 0` holds of the published value and of the first one. The reader reads `data` though nothing
-- was published, and nothing orders it with the write.
theorem initial_value_takes_arm :
    ∃ state, Reachable (zeroed .ICMP_SGE 0) (fun _ _ => True) "main" state ∧
      ∃ m n first second, state.events[m]? = some first ∧ first.mark = .ran (0, 0) ∧
        state.events[n]? = some second ∧ second.mark = .ran (1, 0) ∧
        "flag" ∈ ((publishing .ICMP_SGE 0).run (first.function, (0, 0))).beforeRelease ∧
        "flag" ∈ ((publishing .ICMP_SGE 0).run (second.function, (1, 0))).afterAcquire ∧
        (∀ event ∈ state.events, ∀ read, event.read = some read → read.source = none) ∧
        ¬HappensBefore (publishing .ICMP_SGE 0).module state.events m n ∧
        ¬HappensBefore (publishing .ICMP_SGE 0).module state.events n m := by
  have hwrote : Reachable (zeroed .ICMP_SGE 0) (fun _ _ => True) "main" wroteData :=
    wroteData_reachable fun _ _ _ => trivial
  have hreachable : Reachable (zeroed .ICMP_SGE 0) (fun _ _ => True) "main"
      (readData 1 4 wroteData.events initialRead) :=
    readData_reachable hwrote rfl rfl (by decide) fun _ _ _ => trivial
  have hreads : ∀ event ∈ (readData 1 4 wroteData.events initialRead).events, ∀ read,
      event.read = some read → read.source = none := by
    intro event hevent read hread
    simp only [readData, wroteData, List.cons_append, List.nil_append, List.mem_cons, List.not_mem_nil,
      or_false] at hevent
    rcases hevent with rfl | rfl | rfl | rfl | rfl | rfl | rfl <;> cases hread
    rfl
  refine ⟨_, hreachable, 2, 6, _, _, rfl, rfl, rfl, rfl, by decide +kernel, by decide +kernel, hreads,
    fun h => ?_, fun h => ?_⟩
  · obtain ⟨first, second, hfirst, hsecond, _, hthread⟩ := threadOrder_of_happensBefore hreads h
    cases hfirst
    cases hsecond
    cases hthread
  · obtain ⟨first, second, hfirst, hsecond, _, hthread⟩ := threadOrder_of_happensBefore hreads h
    cases hfirst
    cases hsecond
    cases hthread

-- The publication of `flag`, which the reader tests for the published value.
def flagPublication : Publication where
  store :=
    { site := (0, 1)
      function := publisher
      operation :=
        { kind := .Store
          order := some .Release
          object := some (.global "flag")
          storedValue := some (.constant (.ofNat 32 1)) }
      object := "flag" }
  published := .ofNat 64 1
  releasePoints := [(0, 1)]

def flagLoad : FlagAccess where
  site := (0, 0)
  function := reader .ICMP_EQ 1
  operation := { kind := .Load, order := some .Acquire, object := some (.global "flag") }
  object := "flag"

def publishedRead : Read := ⟨readyPlace, some 3, .ofNat 32 1⟩

def published : State where
  threads := threadsWith 2 freshReader
  fresh := 5
  events := wroteData.events ++
    [⟨1, 1, "publisher", .ran (0, 1), [(readyPlace, .ofNat 32 1)], none⟩]

def readPublished : State := readData 2 5 published.events publishedRead

theorem flagPublication_found :
    (publishing .ICMP_EQ 1).findPublication "flag" = some flagPublication := by
  rfl

theorem flag_loads : (publishing .ICMP_EQ 1).loads "flag" = [flagLoad] := by
  rfl

theorem flag_decisive : Decisive (publishing .ICMP_EQ 1) (zeroed .ICMP_EQ 1) "flag" flagPublication where
  separates load hload arm harm found hfound := by
    have hsame : load = flagLoad := by simpa [flag_loads] using hload.1
    subst hsame
    have harms : flagLoad.observedArms flagPublication.published = [(0, 1)] := by decide +kernel
    rw [harms, List.mem_singleton] at harm
    subst harm
    cases hfound
    exact ⟨2, by decide +kernel, by decide⟩
  acyclic hcycle := by
    obtain ⟨next, hnext, _⟩ := Relation.TransGen.head'_iff.mp hcycle
    exact absurd hnext List.not_mem_nil
  releases := List.cons_ne_nil _ _

theorem flag_orderly (state : State) (event : Event)
    (hbegins : state.events ++ [event] <+: readPublished.events) :
    Orderly (publishing .ICMP_EQ 1) "flag" flagPublication state event := by
  have hevent : event ∈ readPublished.events :=
    hbegins.subset (List.mem_append_right _ List.mem_cons_self)
  have hcases := hevent
  simp only [readPublished, readData, published, wroteData, List.cons_append, List.nil_append,
    List.mem_cons, List.not_mem_nil, or_false] at hcases
  have hpublisher : ∀ found ∈ readPublished.events, found.function = "publisher" →
      found.activation = 1 := by
    intro found hfound hfunction
    simp only [readPublished, readData, published, wroteData, List.cons_append, List.nil_append,
      List.mem_cons, List.not_mem_nil, or_false] at hfound
    rcases hfound with rfl | rfl | rfl | rfl | rfl | rfl | rfl | rfl <;> simp at hfunction ⊢
  refine ⟨?_, ?_, ?_, ?_⟩
  · intro frame rest _ function hfunction slot width hload _
    have hmem := (Module.mem_of_functionWithId hfunction).1
    have hsite := Function.mem_sites.mpr hload
    simp only [publishing, List.mem_cons, List.not_mem_nil, or_false] at hmem
    rcases hmem with rfl | rfl | rfl <;>
      simp [Function.sites, starter, publisher, reader] at hsite
  · intro write hwrite hobject
    rcases hcases with rfl | rfl | rfl | rfl | rfl | rfl | rfl | rfl <;>
      simp only [List.mem_cons, List.not_mem_nil, or_false] at hwrite
    · subst hwrite
      simp [dataPlace, flagPublication] at hobject
    · exact ⟨_, _, rfl, rfl, rfl⟩
  · intro load _ _ _ read hread
    rcases hcases with rfl | rfl | rfl | rfl | rfl | rfl | rfl | rfl <;> cases hread
    rfl
  · intro earlier hearlier hfirst hsecond
    have hmem : earlier ∈ readPublished.events :=
      hbegins.subset (List.mem_append_left _ hearlier)
    rw [hpublisher earlier hmem hfirst, hpublisher event hevent hsecond]

theorem readPublished_reachable :
    Reachable (zeroed .ICMP_EQ 1) (Orderly (publishing .ICMP_EQ 1) "flag" flagPublication) "main"
      readPublished := by
  have hwrote : Reachable (zeroed .ICMP_EQ 1)
      (Orderly (publishing .ICMP_EQ 1) "flag" flagPublication) "main" wroteData :=
    wroteData_reachable fun state event hbegins =>
      flag_orderly state event (hbegins.trans ⟨_, rfl⟩)
  have hstores : Step (zeroed .ICMP_EQ 1) wroteData
      (some ⟨1, 1, "publisher", .ran (0, 1), [(readyPlace, .ofNat 32 1)], none⟩) published :=
    @Step.run _ _ wroteData 1 { function := "publisher", activation := 1, index := 1 } _ [] [] []
      publisher _ _ _ _ rfl rfl rfl (.atomicStore rfl rfl) rfl
  have hpublished := hwrote.event hstores (flag_orderly _ _ ⟨_, rfl⟩)
  exact readData_reachable hpublished rfl ⟨_, rfl, List.mem_cons_self⟩ (by decide) fun state event =>
    flag_orderly state event

-- `flag == 1` does not hold of the first value: the read of `data` comes after the write.
theorem published_before_read :
    (∃ store release, Releases (publishing .ICMP_EQ 1).module readPublished.events release store ∧
        AfterPublication (publishing .ICMP_EQ 1) "flag" flagPublication readPublished.events store 7) ∧
      HappensBefore (publishing .ICMP_EQ 1).module readPublished.events 2 7 := by
  have horders := publication_orders (publishing .ICMP_EQ 1) (zeroed .ICMP_EQ 1) "flag" flagPublication
    flagPublication_found flag_decisive "main" readPublished readPublished_reachable 7 _ rfl (1, 0) rfl
    (by decide +kernel)
  exact ⟨horders.1, horders.2 2 _ (0, 0) rfl rfl (by decide +kernel)⟩

end Examples

end ConcurrencyAnalyzer.AtomicOrdering
