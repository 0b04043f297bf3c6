import ConcurrencyAnalyzer.ThreadEntries.Module
import ConcurrencyAnalyzer.Library.KeyedGrowth

namespace ConcurrencyAnalyzer.ThreadEntries

open Library Relation

structure UnsafeCall where
  location : SourceLocation
  functionId : String
  deriving DecidableEq

structure Installation where
  location : SourceLocation
  handlerFunctionId : String
  deriving DecidableEq

-- The unsafe call of each function that is known for one, which is told once for a function.
abbrev UnsafeCalls := List (String × UnsafeCall)

structure HandlerScan where
  installations : List Installation := []
  unsafeByFunction : UnsafeCalls := []

section Collect

variable (module : Module)

-- The handler a call installs, where the module has its body.
def installedHandler (call : Call) : Option String :=
  call.installedSignalHandler.filter module.defines

-- A call that installs a handler is not looked at for safety.
def scanCall (scan : HandlerScan) (place : Function × Call) : HandlerScan :=
  match installedHandler module place.2 with
  | some handler =>
      { scan with installations := scan.installations ++ [⟨place.2.userLocation, handler⟩] }
  | none =>
      if place.2.isAsyncSignalUnsafe then
        let unsafeCall : UnsafeCall := ⟨place.2.userLocation, place.1.id⟩
        { scan with unsafeByFunction :=
            KeyedGrowth.insert Prod.fst scan.unsafeByFunction (place.1.id, unsafeCall) }
      else scan

def definedCalls : List (Function × Call) :=
  module.definitions.flatMap fun function => function.calls.map (function, ·)

def scanModule : HandlerScan :=
  (definedCalls module).foldl (scanCall module) {}

-- A function that calls an unsafe one is as unsafe, unless it is known for a call already.
def inheritUnsafety (unsafeCalls : UnsafeCalls) (site : DirectCallSite) : UnsafeCalls :=
  match unsafeCalls.find? (·.1 = site.calleeFunctionId) with
  | none => unsafeCalls
  | some (_, unsafeCall) =>
      if unsafeCalls.any (·.1 = site.callerFunctionId) then unsafeCalls
      else unsafeCalls ++ [(site.callerFunctionId, unsafeCall)]

def unsafetyRound (sites : List DirectCallSite) (unsafeCalls : UnsafeCalls) : UnsafeCalls :=
  sites.foldl inheritUnsafety unsafeCalls

-- A round that tells a function tells the caller of some call.
def propagateUnsafety (sites : List DirectCallSite) (unsafeCalls : UnsafeCalls) : UnsafeCalls :=
  settle KeyedGrowth.unchanged (unsafetyRound sites) (unsafeCalls.length + sites.length) unsafeCalls

def factOf (unsafeCalls : UnsafeCalls) (installation : Installation) : Option SignalHandlerFact :=
  (unsafeCalls.find? (·.1 = installation.handlerFunctionId)).map fun found => {
    location := installation.location
    handlerFunctionId := installation.handlerFunctionId
    unsafeCallLocation := found.2.location
    unsafeCallFunctionId := found.2.functionId }

-- A handler is reported where it is first installed.
def reportHandlers (unsafeCalls : UnsafeCalls) (installations : List Installation) :
    List SignalHandlerFact :=
  (installations.filterMap (factOf unsafeCalls)).foldl
    (KeyedGrowth.insert SignalHandlerFact.handlerFunctionId) []

def collectSignalHandlers (sites : List DirectCallSite) : List SignalHandlerFact :=
  let scan := scanModule module
  if scan.installations.isEmpty || scan.unsafeByFunction.isEmpty then []
  else reportHandlers (propagateUnsafety sites scan.unsafeByFunction) scan.installations

def Calls (sites : List DirectCallSite) (caller callee : String) : Prop :=
  ∃ site ∈ sites, site.callerFunctionId = caller ∧ site.calleeFunctionId = callee

-- A call of the function that a handler must not make, and that installs none itself.
def CallsUnsafely (functionId : String) (location : SourceLocation) : Prop :=
  ∃ function ∈ module.definitions, function.id = functionId ∧ ∃ call ∈ function.calls,
    installedHandler module call = none ∧ call.isAsyncSignalUnsafe = true ∧ call.userLocation = location

def Installs (handler : String) (location : SourceLocation) : Prop :=
  ∃ function ∈ module.definitions, ∃ call ∈ function.calls,
    installedHandler module call = some handler ∧ call.userLocation = location

end Collect

section Scan

variable {module : Module}

def ownUnsafeCall (module : Module) (place : Function × Call) : Option (String × UnsafeCall) :=
  if (installedHandler module place.2).isNone && place.2.isAsyncSignalUnsafe then
    some (place.1.id, ⟨place.2.userLocation, place.1.id⟩)
  else none

def installationOf (module : Module) (place : Function × Call) : Option Installation :=
  (installedHandler module place.2).map (⟨place.2.userLocation, ·⟩)

theorem scanModule_eq :
    (scanModule module).installations = (definedCalls module).filterMap (installationOf module) ∧
      (scanModule module).unsafeByFunction =
        ((definedCalls module).filterMap (ownUnsafeCall module)).foldl (KeyedGrowth.insert Prod.fst) [] := by
  have hfold (places : List (Function × Call)) (scan : HandlerScan) :
      (places.foldl (scanCall module) scan).installations =
          scan.installations ++ places.filterMap (installationOf module) ∧
        (places.foldl (scanCall module) scan).unsafeByFunction =
          (places.filterMap (ownUnsafeCall module)).foldl (KeyedGrowth.insert Prod.fst)
            scan.unsafeByFunction := by
    induction places generalizing scan with
    | nil => simp
    | cons place rest ih =>
        obtain ⟨hinstallations, hdanger⟩ := ih (scanCall module scan place)
        rw [List.foldl_cons, hinstallations, hdanger, List.filterMap_cons, List.filterMap_cons]
        unfold scanCall installationOf ownUnsafeCall
        cases hinstalled : installedHandler module place.2 with
        | some handler => simp
        | none => cases hflag : place.2.isAsyncSignalUnsafe <;> simp
  simpa [scanModule] using hfold (definedCalls module) {}

theorem mem_definedCalls {function : Function} {call : Call} :
    (function, call) ∈ definedCalls module ↔ function ∈ module.definitions ∧ call ∈ function.calls := by
  simp only [definedCalls, List.mem_flatMap, List.mem_map, Prod.mk.injEq]
  constructor
  · rintro ⟨other, hother, found, hfound, rfl, rfl⟩
    exact ⟨hother, hfound⟩
  · rintro ⟨hfunction, hcall⟩
    exact ⟨function, hfunction, call, hcall, rfl, rfl⟩

theorem mem_ownUnsafeCalls {entry : String × UnsafeCall} :
    entry ∈ (definedCalls module).filterMap (ownUnsafeCall module) ↔
      entry.2.functionId = entry.1 ∧ CallsUnsafely module entry.1 entry.2.location := by
  rw [List.mem_filterMap]
  unfold CallsUnsafely ownUnsafeCall
  constructor
  · rintro ⟨⟨function, call⟩, hmem, hsome⟩
    obtain ⟨hfunction, hcall⟩ := mem_definedCalls.mp hmem
    split at hsome
    · rename_i hdanger
      simp only [Bool.and_eq_true, Option.isNone_iff_eq_none] at hdanger
      cases hsome
      exact ⟨rfl, function, hfunction, rfl, call, hcall, hdanger.1, hdanger.2, rfl⟩
    · cases hsome
  · obtain ⟨functionId, location, owner⟩ := entry
    rintro ⟨howner, function, hfunction, rfl, call, hcall, hinstalled, hdanger, rfl⟩
    simp only at howner
    subst howner
    exact ⟨(function, call), mem_definedCalls.mpr ⟨hfunction, hcall⟩, by simp [hinstalled, hdanger]⟩

theorem mem_installations {installation : Installation} :
    installation ∈ (definedCalls module).filterMap (installationOf module) ↔
      Installs module installation.handlerFunctionId installation.location := by
  rw [List.mem_filterMap]
  unfold Installs installationOf
  constructor
  · rintro ⟨⟨function, call⟩, hmem, hsome⟩
    obtain ⟨hfunction, hcall⟩ := mem_definedCalls.mp hmem
    obtain ⟨handler, hinstalled, rfl⟩ := Option.map_eq_some_iff.mp hsome
    exact ⟨function, hfunction, call, hcall, hinstalled, rfl⟩
  · rintro ⟨function, hfunction, call, hcall, hinstalled, hlocation⟩
    refine ⟨(function, call), mem_definedCalls.mpr ⟨hfunction, hcall⟩, ?_⟩
    rw [hinstalled, Option.map_some, hlocation]

end Scan

section Propagation

variable {module : Module} {sites : List DirectCallSite} {unsafeCalls : UnsafeCalls}

-- A call tells its caller what its callee is known for.
def tellCaller (site : DirectCallSite) (entry : String × UnsafeCall) : Option (String × UnsafeCall) :=
  if entry.1 = site.calleeFunctionId then some (site.callerFunctionId, entry.2) else none

theorem tellCaller_eq_some {site : DirectCallSite} {entry next : String × UnsafeCall} :
    tellCaller site entry = some next ↔
      entry.1 = site.calleeFunctionId ∧ next = (site.callerFunctionId, entry.2) := by
  unfold tellCaller
  by_cases hcallee : entry.1 = site.calleeFunctionId
  · rw [if_pos hcallee, Option.some.injEq]
    exact ⟨fun h => ⟨hcallee, h.symm⟩, fun h => h.2.symm⟩
  · rw [if_neg hcallee]
    exact ⟨fun h => (by cases h), fun h => absurd h.1 hcallee⟩

-- Of several elements of one key the first is kept, if any.
theorem foldl_insert_sameKey {α κ : Type} [DecidableEq κ] {key : α → κ} {kept elements : List α} {k : κ}
    (h : ∀ element ∈ elements, key element = k) (hknown : k ∈ kept.map key) :
    elements.foldl (KeyedGrowth.insert key) kept = kept := by
  induction elements with
  | nil => rfl
  | cons first rest ih =>
      obtain ⟨hfirst, hrest⟩ := List.forall_mem_cons.mp h
      have hany : kept.any (key · = key first) = true := by
        obtain ⟨other, hother, hsame⟩ := List.mem_map.mp hknown
        exact List.any_eq_true.mpr ⟨other, hother, by simp [hsame, hfirst]⟩
      rw [List.foldl_cons, KeyedGrowth.insert, if_pos hany]
      exact ih hrest

theorem inheritUnsafety_eq (unsafeCalls : UnsafeCalls) (site : DirectCallSite) :
    inheritUnsafety unsafeCalls site = KeyedGrowth.apply Prod.fst tellCaller unsafeCalls site := by
  have htold : ∀ entry ∈ unsafeCalls.filterMap (tellCaller site), entry.1 = site.callerFunctionId := by
    intro entry hmem
    obtain ⟨before, _, htold⟩ := List.mem_filterMap.mp hmem
    rw [(tellCaller_eq_some.mp htold).2]
  have hhead : ∀ entries : UnsafeCalls, (entries.filterMap (tellCaller site)).head? =
      (entries.find? (·.1 = site.calleeFunctionId)).map fun found =>
        (site.callerFunctionId, found.2) := by
    intro entries
    induction entries with
    | nil => rfl
    | cons first rest ih =>
        by_cases hcallee : first.1 = site.calleeFunctionId
        · simp [tellCaller, hcallee]
        · rw [List.filterMap_cons, List.find?_cons_of_neg (by simpa using hcallee)]
          simpa [tellCaller, hcallee] using ih
  have hmem : unsafeCalls.any (·.1 = site.callerFunctionId) = true ↔
      site.callerFunctionId ∈ unsafeCalls.map Prod.fst := by
    simp only [List.any_eq_true, List.mem_map, decide_eq_true_eq]
  unfold inheritUnsafety KeyedGrowth.apply
  have hfirst := hhead unsafeCalls
  cases hfind : unsafeCalls.find? (·.1 = site.calleeFunctionId) with
  | none =>
      rw [hfind, Option.map_none, List.head?_eq_none_iff] at hfirst
      rw [hfirst]
      rfl
  | some found =>
      obtain ⟨functionId, unsafeCall⟩ := found
      rw [hfind, Option.map_some] at hfirst
      obtain ⟨rest, hlist⟩ := List.head?_eq_some_iff.mp hfirst
      simp only
      by_cases hknown : unsafeCalls.any (·.1 = site.callerFunctionId) = true
      · rw [if_pos hknown, foldl_insert_sameKey htold (hmem.mp hknown)]
      · rw [if_neg hknown, hlist, List.foldl_cons, KeyedGrowth.insert, if_neg hknown]
        rw [foldl_insert_sameKey (fun entry hentry => htold entry (hlist ▸ List.mem_cons_of_mem _ hentry))]
        simp

theorem unsafetyRound_eq : unsafetyRound sites = KeyedGrowth.round Prod.fst tellCaller sites := by
  funext unsafeCalls
  unfold unsafetyRound KeyedGrowth.round
  congr 1
  funext unsafeCalls site
  exact inheritUnsafety_eq unsafeCalls site

-- What a function is known for is an unsafe call that it reaches, and the caller of whatever reaches one
-- is known for one.
theorem propagateUnsafety_exact (module : Module) (sites : List DirectCallSite) :
    Ends KeyedGrowth.unchanged (unsafetyRound sites) (scanModule module).unsafeByFunction
      (propagateUnsafety sites (scanModule module).unsafeByFunction) ∧
    (∀ entry ∈ propagateUnsafety sites (scanModule module).unsafeByFunction,
      ReflTransGen (Calls sites) entry.1 entry.2.functionId ∧
        CallsUnsafely module entry.2.functionId entry.2.location) ∧
    ∀ functionId reached location, ReflTransGen (Calls sites) functionId reached →
      CallsUnsafely module reached location →
        functionId ∈ (propagateUnsafety sites (scanModule module).unsafeByFunction).map Prod.fst := by
  have hscan := (@scanModule_eq module).2
  have hstart : KeyedGrowth.Grown Prod.fst tellCaller sites (scanModule module).unsafeByFunction
      (scanModule module).unsafeByFunction
      (((scanModule module).unsafeByFunction.map Prod.fst) ++
        sites.map (·.callerFunctionId)).toFinset := by
    refine ⟨?_, fun functionId hmem => ?_, fun _ => .start, fun _ hmem => hmem⟩
    · rw [hscan]
      exact KeyedGrowth.foldl_insert_nodup _ (by simp)
    · exact List.mem_toFinset.mpr (List.mem_append_left _ hmem)
  have hbound : ∀ site ∈ sites, ∀ entry next, tellCaller site entry = some next →
      next.1 ∈ (((scanModule module).unsafeByFunction.map Prod.fst) ++
        sites.map (·.callerFunctionId)).toFinset := by
    intro site hsite entry next htold
    rw [(tellCaller_eq_some.mp htold).2]
    exact List.mem_toFinset.mpr (List.mem_append_right _ (List.mem_map_of_mem hsite))
  have hfuel : (((scanModule module).unsafeByFunction.map Prod.fst) ++
      sites.map (·.callerFunctionId)).toFinset.card ≤
        (scanModule module).unsafeByFunction.length + sites.length := by
    refine (List.toFinset_card_le _).trans ?_
    simp
  obtain ⟨hends, hgrown, hfixed⟩ := KeyedGrowth.grow_ends hstart hbound hfuel
  rw [KeyedGrowth.grow, ← unsafetyRound_eq] at hends hgrown hfixed
  refine ⟨hends, fun entry hmem => ?_, fun functionId reached location hreached hdanger => ?_⟩
  · have hderived := hgrown.sound entry hmem
    clear hmem
    induction hderived with
    | start hmem =>
        rw [hscan] at hmem
        have hown := mem_ownUnsafeCalls.mp
          ((KeyedGrowth.mem_foldl_insert _ hmem).resolve_left List.not_mem_nil)
        rw [hown.1]
        exact ⟨.refl, hown.2⟩
    | @step site before next _ hsite htold ih =>
        obtain ⟨hcallee, rfl⟩ := tellCaller_eq_some.mp htold
        exact ⟨.head ⟨site, hsite, rfl, hcallee.symm⟩ ih.1, ih.2⟩
  · have hcongruent : KeyedGrowth.Congruent Prod.fst tellCaller sites := by
      intro site _ entry other hsame
      unfold tellCaller
      rw [hsame]
      split <;> rfl
    have hown : ∀ entry ∈ (definedCalls module).filterMap (ownUnsafeCall module),
        entry.1 ∈ (propagateUnsafety sites (scanModule module).unsafeByFunction).map Prod.fst := by
      intro entry hmem
      have hkey : entry.1 ∈ (scanModule module).unsafeByFunction.map Prod.fst := by
        rw [hscan]
        exact (KeyedGrowth.mem_keys_foldl_insert _ _).mpr (.inr (List.mem_map_of_mem hmem))
      obtain ⟨other, hother, hsame⟩ := List.mem_map.mp hkey
      rw [← hsame]
      exact List.mem_map_of_mem (hgrown.kept other hother)
    have hround : KeyedGrowth.round Prod.fst tellCaller sites
        (propagateUnsafety sites (scanModule module).unsafeByFunction) =
          propagateUnsafety sites (scanModule module).unsafeByFunction := by
      rw [← unsafetyRound_eq]
      exact hfixed
    suffices hderived : KeyedGrowth.Derived tellCaller sites
        ((definedCalls module).filterMap (ownUnsafeCall module)) (functionId, ⟨location, reached⟩) from
      KeyedGrowth.derived_kept hcongruent hown hround hderived
    induction hreached using ReflTransGen.head_induction_on with
    | refl => exact .start (mem_ownUnsafeCalls.mpr ⟨rfl, hdanger⟩)
    | head hcall _ ih =>
        obtain ⟨site, hsite, rfl, rfl⟩ := hcall
        exact ih.step hsite (tellCaller_eq_some.mpr ⟨rfl, rfl⟩)

end Propagation

-- All installations of one handler tell the same of it, but for where they are.
theorem find?_factOf {unsafeCalls : UnsafeCalls} (installations : List Installation) {handler : String}
    (hknown : (unsafeCalls.find? (·.1 = handler)).isSome = true) :
    (installations.filterMap (factOf unsafeCalls)).find? (·.handlerFunctionId = handler) =
      (installations.find? (·.handlerFunctionId = handler)).bind (factOf unsafeCalls) := by
  obtain ⟨found, hfound⟩ := Option.isSome_iff_exists.mp hknown
  induction installations with
  | nil => rfl
  | cons installation rest ih =>
      by_cases hhandler : installation.handlerFunctionId = handler
      · subst hhandler
        simp [factOf, hfound]
      · rw [List.filterMap_cons, List.find?_cons_of_neg (by simpa using hhandler), ← ih]
        cases hfact : factOf unsafeCalls installation with
        | none => rfl
        | some fact =>
            obtain ⟨other, -, rfl⟩ := Option.map_eq_some_iff.mp hfact
            exact List.find?_cons_of_neg (by simpa using hhandler)

section Reports

variable {module : Module} {sites : List DirectCallSite}

-- A report names the place where the handler is first installed and an unsafe call that it reaches.
theorem collectSignalHandlers_sound {fact : SignalHandlerFact} (h : fact ∈ collectSignalHandlers module sites) :
    (scanModule module).installations.find? (·.handlerFunctionId = fact.handlerFunctionId) =
        some ⟨fact.location, fact.handlerFunctionId⟩ ∧
      Installs module fact.handlerFunctionId fact.location ∧
      ReflTransGen (Calls sites) fact.handlerFunctionId fact.unsafeCallFunctionId ∧
      CallsUnsafely module fact.unsafeCallFunctionId fact.unsafeCallLocation := by
  obtain ⟨-, hsound, -⟩ := propagateUnsafety_exact module sites
  unfold collectSignalHandlers at h
  simp only at h
  split at h
  · cases h
  · have hfirst := KeyedGrowth.find?_of_mem_inserted h
    have hfact := (KeyedGrowth.mem_foldl_insert _ h).resolve_left List.not_mem_nil
    obtain ⟨installation, hinstallation, hsome⟩ := List.mem_filterMap.mp hfact
    obtain ⟨found, hfound, rfl⟩ := Option.map_eq_some_iff.mp hsome
    have hid : found.1 = installation.handlerFunctionId := by simpa using List.find?_some hfound
    have hdanger := hsound found (List.mem_of_find?_eq_some hfound)
    rw [hid] at hdanger
    refine ⟨?_, ?_, hdanger.1, hdanger.2⟩
    · have hknown : ((propagateUnsafety sites (scanModule module).unsafeByFunction).find?
          (·.1 = installation.handlerFunctionId)).isSome = true := by rw [hfound]; rfl
      rw [find?_factOf _ hknown] at hfirst
      obtain ⟨first, hfirstFound, hfact⟩ := Option.bind_eq_some_iff.mp hfirst
      obtain ⟨other, -, hother⟩ := Option.map_eq_some_iff.mp hfact
      simp only [SignalHandlerFact.mk.injEq] at hother
      rw [hfirstFound, ← hother.1, ← hother.2.1]
    · rw [(@scanModule_eq module).1] at hinstallation
      exact mem_installations.mp hinstallation

-- A handler that reaches an unsafe call is reported.
theorem mem_collectSignalHandlers {handler reached : String} {location unsafeLocation : SourceLocation}
    (hinstalls : Installs module handler location) (hreached : ReflTransGen (Calls sites) handler reached)
    (hdanger : CallsUnsafely module reached unsafeLocation) :
    handler ∈ (collectSignalHandlers module sites).map (·.handlerFunctionId) := by
  obtain ⟨-, -, hcomplete⟩ := propagateUnsafety_exact module sites
  have hinstallation := mem_installations.mpr
    (show Installs module (⟨location, handler⟩ : Installation).handlerFunctionId location from hinstalls)
  have hown : ((reached, ⟨unsafeLocation, reached⟩) : String × UnsafeCall) ∈
      (definedCalls module).filterMap (ownUnsafeCall module) := mem_ownUnsafeCalls.mpr ⟨rfl, hdanger⟩
  have hkey : reached ∈ (scanModule module).unsafeByFunction.map Prod.fst := by
    rw [(@scanModule_eq module).2]
    exact (KeyedGrowth.mem_keys_foldl_insert _ _).mpr (.inr (List.mem_map_of_mem hown))
  rw [← (@scanModule_eq module).1] at hinstallation
  have hneither : ((scanModule module).installations.isEmpty ||
      (scanModule module).unsafeByFunction.isEmpty) = false := by
    rw [Bool.or_eq_false_iff, List.isEmpty_eq_false_iff, List.isEmpty_eq_false_iff]
    exact ⟨List.ne_nil_of_mem hinstallation, fun hnone => by rw [hnone] at hkey; cases hkey⟩
  obtain ⟨entry, hentry, hid⟩ := List.mem_map.mp (hcomplete handler reached unsafeLocation hreached hdanger)
  have hsome : ((propagateUnsafety sites (scanModule module).unsafeByFunction).find?
      (·.1 = handler)).isSome = true := List.find?_isSome.mpr ⟨entry, hentry, by simp [hid]⟩
  obtain ⟨found, hfound⟩ := Option.isSome_iff_exists.mp hsome
  unfold collectSignalHandlers
  simp only [hneither, Bool.false_eq_true, if_false]
  refine (KeyedGrowth.mem_keys_foldl_insert _ _).mpr (.inr (List.mem_map.mpr ⟨{
    location := location
    handlerFunctionId := handler
    unsafeCallLocation := found.2.location
    unsafeCallFunctionId := found.2.functionId }, ?_, rfl⟩))
  refine List.mem_filterMap.mpr ⟨⟨location, handler⟩, hinstallation, ?_⟩
  rw [factOf, hfound, Option.map_some]

theorem collectSignalHandlers_nodup :
    ((collectSignalHandlers module sites).map (·.handlerFunctionId)).Nodup := by
  unfold collectSignalHandlers
  simp only
  split
  · simp
  · exact KeyedGrowth.foldl_insert_nodup _ (by simp)

-- A handler is reported once, where it is first installed, if and only if it reaches an unsafe call
-- through direct calls, and the report names such a call.
theorem collectSignalHandlers_exact (module : Module) (sites : List DirectCallSite) :
    ((collectSignalHandlers module sites).map (·.handlerFunctionId)).Nodup ∧
    (∀ fact ∈ collectSignalHandlers module sites,
      (scanModule module).installations.find? (·.handlerFunctionId = fact.handlerFunctionId) =
          some ⟨fact.location, fact.handlerFunctionId⟩ ∧
        Installs module fact.handlerFunctionId fact.location ∧
        ReflTransGen (Calls sites) fact.handlerFunctionId fact.unsafeCallFunctionId ∧
        CallsUnsafely module fact.unsafeCallFunctionId fact.unsafeCallLocation) ∧
    ∀ handler, (∃ location, Installs module handler location) →
      (∃ reached location, ReflTransGen (Calls sites) handler reached ∧
        CallsUnsafely module reached location) →
      handler ∈ (collectSignalHandlers module sites).map (·.handlerFunctionId) := by
  refine ⟨collectSignalHandlers_nodup, fun fact => collectSignalHandlers_sound, ?_⟩
  rintro handler ⟨location, hinstalls⟩ ⟨reached, unsafeLocation, hreached, hdanger⟩
  exact mem_collectSignalHandlers hinstalls hreached hdanger

end Reports

end ConcurrencyAnalyzer.ThreadEntries
