import ConcurrencyAnalyzer.CrossTU.SymbolIndex
import Mathlib.Data.List.Perm.Basic

namespace ConcurrencyAnalyzer.ProgramSymbolIndex

-- The units of a program, each under its number.
abbrev NumberedUnits := List (Nat × TUFacts)

def addUnits (index : ProgramSymbolIndex) (units : NumberedUnits) : ProgramSymbolIndex :=
  units.foldl (fun known unit => known.addUnit unit.1 unit.2) index

def ofUnits (units : NumberedUnits) : ProgramSymbolIndex :=
  ({} : ProgramSymbolIndex).addUnits units

-- What a unit says about the starts of an entry, one count a function of that symbol.
def startsOf (symbol : String) (facts : TUFacts) : List EntryConcurrencyInfo :=
  facts.program.functionSymbolsById.filterMap fun function =>
    if function.2 = symbol then facts.entryConcurrency function.1 else none

def shows (symbol : String) (facts : TUFacts) : Bool :=
  symbol ∈ facts.program.functionSymbolsById.map Prod.snd

-- What a unit publishes about a function it defines.
def publishedOn {α : Type} (published : TUFacts → String → Option α) (symbol : String)
    (facts : TUFacts) : Option α :=
  facts.program.functionSymbolsById.findSome? fun function =>
    if function.2 = symbol ∧ symbol ∉ facts.program.declaredFunctions then published facts function.1
    else none

def resolvedHandles (facts : TUFacts) : Finset String :=
  facts.resolvedGlobalHandleIds.biUnion fun handleGroupId =>
    (facts.program.handleSymbolsByGroupId handleGroupId).elim ∅ ({·})

-- The two indices answer every query alike.
structure SameAnswers (index other : ProgramSymbolIndex) : Prop where
  spawnCount : ∀ symbol, index.spawnCount symbol = other.spawnCount symbol
  spawnedInLoop : ∀ symbol, index.spawnedInLoop symbol = other.spawnedInLoop symbol
  isThreadEntry : ∀ symbol, index.isThreadEntry symbol = other.isThreadEntry symbol
  lockSummaryFor : ∀ symbol, index.lockSummaryFor symbol = other.lockSummaryFor symbol
  joinedParametersOf : ∀ symbol, index.joinedParametersOf symbol = other.joinedParametersOf symbol
  resolvesHandleElsewhere : ∀ symbol,
    index.resolvesHandleElsewhere symbol = other.resolvesHandleElsewhere symbol
  isDefinedSomewhere : ∀ symbol, index.isDefinedSomewhere symbol = other.isDefinedSomewhere symbol
  appearsInSeveralUnits : ∀ symbol,
    index.appearsInSeveralUnits symbol = other.appearsInSeveralUnits symbol
  programCreatesThreads : index.programCreatesThreads = other.programCreatesThreads
  programReapsChildren : index.programReapsChildren = other.programReapsChildren

-- No two units publish different things about one symbol.
def PublishAlike (units : NumberedUnits) : Prop :=
  ∀ unit ∈ units, ∀ next ∈ units, ∀ symbol,
    (∀ summary ∈ publishedOn (·.lockWrapperSummaries) symbol unit.2,
      ∀ copy ∈ publishedOn (·.lockWrapperSummaries) symbol next.2, summary = copy) ∧
    ∀ joined ∈ publishedOn (·.joiningHelpers) symbol unit.2,
      ∀ copy ∈ publishedOn (·.joiningHelpers) symbol next.2, joined = copy

-- The starts of an entry add up.
section Starts

def addCount (spawns : Option EntrySpawns) (concurrency : EntryConcurrencyInfo) : Option EntrySpawns :=
  some ⟨((spawns.map (·.instanceCount)).getD 0) + concurrency.staticSpawnCount,
    (spawns.map (·.insideLoop)).getD false || concurrency.hasSpawnInLoop⟩

theorem lookup_addSpawn (symbol key : String) (concurrency : EntryConcurrencyInfo)
    (sites : List (String × EntrySpawns)) :
    ((addSpawn symbol concurrency sites).find? (·.1 = key)).map Prod.snd =
      if key = symbol then addCount ((sites.find? (·.1 = key)).map Prod.snd) concurrency
      else (sites.find? (·.1 = key)).map Prod.snd := by
  induction sites with
  | nil =>
      by_cases hkey : key = symbol
      · simp [addSpawn, addCount, hkey]
      · simp [addSpawn, hkey, Ne.symm hkey]
  | cons site rest ih =>
      obtain ⟨known, spawns⟩ := site
      by_cases hsite : known = symbol
      · subst hsite
        by_cases hkey : known = key
        · simp [addSpawn, addCount, hkey]
        · simp [addSpawn, hkey, Ne.symm hkey]
      · by_cases hkey : known = key
        · subst hkey
          simp [addSpawn, hsite]
        · simp only [addSpawn, if_neg hsite]
          rw [List.find?_cons_of_neg (by simpa using hkey), ih, List.find?_cons_of_neg (by simpa using hkey)]

theorem lookup_addSpawns (symbol : String) (facts : TUFacts) (functions : List (String × String))
    (sites : List (String × EntrySpawns)) :
    ((functions.foldl (addSpawns facts.entryConcurrency) sites).find? (·.1 = symbol)).map Prod.snd =
      (functions.filterMap fun function =>
        if function.2 = symbol then facts.entryConcurrency function.1 else none).foldl addCount
          ((sites.find? (·.1 = symbol)).map Prod.snd) := by
  induction functions generalizing sites with
  | nil => rfl
  | cons function rest ih =>
      rw [List.foldl_cons, ih, List.filterMap_cons]
      unfold addSpawns
      cases hstarts : facts.entryConcurrency function.1 with
      | none => simp
      | some concurrency =>
          rw [lookup_addSpawn]
          by_cases hsymbol : symbol = function.2
          · simp [hsymbol]
          · simp [hsymbol, Ne.symm hsymbol]

theorem entrySpawns_addUnits (index : ProgramSymbolIndex) (units : NumberedUnits) (symbol : String) :
    (index.addUnits units).entrySpawns symbol =
      (units.flatMap fun unit => startsOf symbol unit.2).foldl addCount (index.entrySpawns symbol) := by
  induction units generalizing index with
  | nil => rfl
  | cons unit rest ih =>
      have hunit : (index.addUnit unit.1 unit.2).entrySpawns symbol =
          (startsOf symbol unit.2).foldl addCount (index.entrySpawns symbol) :=
        lookup_addSpawns symbol unit.2 _ _
      rw [addUnits, List.foldl_cons, ← addUnits, ih, hunit, List.flatMap_cons, List.foldl_append]

theorem addCount_comm (spawns : Option EntrySpawns) (first second : EntryConcurrencyInfo) :
    addCount (addCount spawns first) second = addCount (addCount spawns second) first := by
  simp only [addCount, Option.map_some, Option.getD_some, Option.some.injEq, EntrySpawns.mk.injEq]
  exact ⟨by omega, by rw [Bool.or_assoc, Bool.or_comm first.hasSpawnInLoop, ← Bool.or_assoc]⟩

theorem entrySpawns_perm {units others : NumberedUnits} (h : units.Perm others) (symbol : String) :
    (ofUnits units).entrySpawns symbol = (ofUnits others).entrySpawns symbol := by
  rw [ofUnits, ofUnits, entrySpawns_addUnits, entrySpawns_addUnits]
  exact (h.flatMap_right _).foldl_eq' (fun first _ second _ spawns => addCount_comm spawns first second) _

end Starts

-- A symbol keeps what is published about it first.
section Published

variable {α : Type}

theorem foldl_addPublished (facts : TUFacts) (published : TUFacts → String → Option α)
    (functions : List (String × String)) (known : String → Option α) (symbol : String) :
    functions.foldl (addPublished facts.program.declaredFunctions (published facts)) known symbol =
      (known symbol).or (functions.findSome? fun function =>
        if function.2 = symbol ∧ symbol ∉ facts.program.declaredFunctions then
          published facts function.1
        else none) := by
  induction functions generalizing known with
  | nil => simp
  | cons function rest ih =>
      rw [List.foldl_cons, ih, List.findSome?_cons]
      unfold addPublished
      cases hpublished : published facts function.1 with
      | none => simp
      | some summary =>
          by_cases hsymbol : function.2 = symbol
          · subst hsymbol
            by_cases hdeclared : function.2 ∈ facts.program.declaredFunctions
            · simp [hdeclared]
            · cases hknown : known function.2 <;> simp [hdeclared, hknown]
          · simp only [hsymbol, false_and, if_false]
            split
            · rfl
            · rw [Function.update_of_ne (Ne.symm hsymbol)]

theorem findSome_perm {β : Type} {answer : β → Option α} {units others : List β}
    (h : units.Perm others) (hsame : ∀ unit ∈ units, ∀ next ∈ units,
      ∀ summary ∈ answer unit, ∀ copy ∈ answer next, summary = copy) :
    units.findSome? answer = others.findSome? answer := by
  cases hunits : units.findSome? answer with
  | none =>
      symm
      rw [List.findSome?_eq_none_iff] at hunits ⊢
      exact fun unit hunit => hunits unit (h.mem_iff.mpr hunit)
  | some summary =>
      obtain ⟨unit, hunit, hsummary⟩ := List.exists_of_findSome?_eq_some hunits
      cases hothers : others.findSome? answer with
      | none =>
          rw [List.findSome?_eq_none_iff] at hothers
          rw [hothers unit (h.mem_iff.mp hunit)] at hsummary
          exact absurd hsummary (by simp)
      | some copy =>
          obtain ⟨next, hnext, hcopy⟩ := List.exists_of_findSome?_eq_some hothers
          rw [hsame unit hunit next (h.mem_iff.mpr hnext) summary hsummary copy hcopy]

theorem lockSummaryFor_addUnits (index : ProgramSymbolIndex) (units : NumberedUnits) (symbol : String) :
    (index.addUnits units).lockSummaryFor symbol = (index.lockSummaryFor symbol).or
      (units.findSome? fun unit => publishedOn (·.lockWrapperSummaries) symbol unit.2) := by
  induction units generalizing index with
  | nil => simp [addUnits]
  | cons unit rest ih =>
      have hunit : (index.addUnit unit.1 unit.2).lockSummaryFor symbol =
          (index.lockSummaryFor symbol).or (publishedOn (·.lockWrapperSummaries) symbol unit.2) :=
        foldl_addPublished unit.2 (·.lockWrapperSummaries) _ _ symbol
      rw [addUnits, List.foldl_cons, ← addUnits, ih, hunit, Option.or_assoc, List.findSome?_cons]
      cases publishedOn (·.lockWrapperSummaries) symbol unit.2 <;> simp

theorem joinedParametersOf_addUnits (index : ProgramSymbolIndex) (units : NumberedUnits)
    (symbol : String) :
    (index.addUnits units).joinedParametersOf symbol = (index.joinedParametersOf symbol).or
      (units.findSome? fun unit => publishedOn (·.joiningHelpers) symbol unit.2) := by
  induction units generalizing index with
  | nil => simp [addUnits]
  | cons unit rest ih =>
      have hunit : (index.addUnit unit.1 unit.2).joinedParametersOf symbol =
          (index.joinedParametersOf symbol).or (publishedOn (·.joiningHelpers) symbol unit.2) :=
        foldl_addPublished unit.2 (·.joiningHelpers) _ _ symbol
      rw [addUnits, List.foldl_cons, ← addUnits, ih, hunit, Option.or_assoc, List.findSome?_cons]
      cases publishedOn (·.joiningHelpers) symbol unit.2 <;> simp

end Published

-- A function appears in several units when two units of different numbers show it.
section Shown

def showIn (units : Option FunctionUnits) (number : Nat) : Option FunctionUnits :=
  match units with
  | none => some { first := number }
  | some known => if known.first = number then some known else some { known with several := true }

theorem addFunction_apply (number : Nat) (units : String → Option FunctionUnits)
    (shown symbol : String) :
    addFunction number units shown symbol =
      if shown = symbol then showIn (units symbol) number else units symbol := by
  unfold addFunction showIn
  by_cases hsymbol : shown = symbol
  · subst hsymbol
    cases hunits : units shown with
    | none => simp
    | some known =>
        by_cases hfirst : known.first = number
        · simp [hfirst, hunits]
        · simp [hfirst]
  · rw [if_neg hsymbol]
    cases units shown with
    | none => exact Function.update_of_ne (Ne.symm hsymbol) _ _
    | some known =>
        by_cases hfirst : known.first = number
        · simp [hfirst]
        · simp only [if_neg hfirst]
          exact Function.update_of_ne (Ne.symm hsymbol) _ _

theorem showIn_showIn (units : Option FunctionUnits) (number : Nat) :
    showIn (showIn units number) number = showIn units number := by
  unfold showIn
  cases units with
  | none => simp
  | some known =>
      by_cases hfirst : known.first = number
      · simp [hfirst]
      · simp [hfirst]

theorem foldl_addFunction (number : Nat) (symbols : List String)
    (units : String → Option FunctionUnits) (symbol : String) :
    symbols.foldl (addFunction number) units symbol =
      if symbol ∈ symbols then showIn (units symbol) number else units symbol := by
  induction symbols generalizing units with
  | nil => simp
  | cons shown rest ih =>
      rw [List.foldl_cons, ih, addFunction_apply]
      by_cases hshown : shown = symbol
      · subst hshown
        simp [showIn_showIn]
      · simp [hshown, Ne.symm hshown]

def numbersShowing (symbol : String) (units : NumberedUnits) : List Nat :=
  (units.filter fun unit => shows symbol unit.2).map Prod.fst

theorem unitsByFunction_addUnits (index : ProgramSymbolIndex) (units : NumberedUnits)
    (symbol : String) :
    (index.addUnits units).unitsByFunction symbol =
      (numbersShowing symbol units).foldl showIn (index.unitsByFunction symbol) := by
  induction units generalizing index with
  | nil => rfl
  | cons unit rest ih =>
      have hunit : (index.addUnit unit.1 unit.2).unitsByFunction symbol =
          if shows symbol unit.2 then showIn (index.unitsByFunction symbol) unit.1
          else index.unitsByFunction symbol := by
        simp only [shows, decide_eq_true_eq]
        exact foldl_addFunction unit.1 _ _ symbol
      rw [addUnits, List.foldl_cons, ← addUnits, ih, hunit, numbersShowing, numbersShowing,
        List.filter_cons]
      split <;> rfl

theorem several_foldl_showIn (numbers : List Nat) (known : FunctionUnits) :
    numbers.foldl showIn (some known) =
      some { known with several := known.several || numbers.any (· ≠ known.first) } := by
  induction numbers generalizing known with
  | nil => simp
  | cons number rest ih =>
      rw [List.foldl_cons, showIn]
      by_cases hfirst : known.first = number
      · simp [hfirst, ih]
      · simp [hfirst, Ne.symm hfirst, ih]

-- Units of different numbers show a function several times as soon as two of them do.
theorem appearsInSeveralUnits_ofUnits {units : NumberedUnits} (hdistinct : (units.map Prod.fst).Nodup)
    (symbol : String) :
    (ofUnits units).appearsInSeveralUnits symbol =
      decide (2 ≤ (units.filter fun unit => shows symbol unit.2).length) := by
  have hnodup : (numbersShowing symbol units).Nodup :=
    hdistinct.sublist (List.filter_sublist.map Prod.fst)
  have hlength : (numbersShowing symbol units).length =
      (units.filter fun unit => shows symbol unit.2).length := List.length_map _
  rw [appearsInSeveralUnits, ofUnits, unitsByFunction_addUnits, ← hlength]
  cases hnumbers : numbersShowing symbol units with
  | nil => simp
  | cons first rest =>
      rw [hnumbers, List.nodup_cons] at hnodup
      rw [List.foldl_cons, showIn, several_foldl_showIn, Option.map_some, Option.getD_some]
      cases rest with
      | nil => simp
      | cons second rest =>
          have hne : second ≠ first := fun h => hnodup.1 (h ▸ List.mem_cons_self)
          simp [hne]

end Shown

-- What is only ever added up to a set or a flag.
section Unions

theorem mem_resolvedHandleSymbols_addUnits (index : ProgramSymbolIndex) (units : NumberedUnits)
    (symbol : String) :
    symbol ∈ (index.addUnits units).resolvedHandleSymbols ↔
      symbol ∈ index.resolvedHandleSymbols ∨ ∃ unit ∈ units, symbol ∈ resolvedHandles unit.2 := by
  induction units generalizing index with
  | nil => simp [addUnits]
  | cons unit rest ih =>
      have hunit : (index.addUnit unit.1 unit.2).resolvedHandleSymbols =
          index.resolvedHandleSymbols ∪ resolvedHandles unit.2 := rfl
      rw [addUnits, List.foldl_cons, ← addUnits, ih, hunit, Finset.mem_union, or_assoc]
      simp

theorem mem_definedGlobals_addUnits (index : ProgramSymbolIndex) (units : NumberedUnits)
    (symbol : String) :
    symbol ∈ (index.addUnits units).definedGlobals ↔
      symbol ∈ index.definedGlobals ∨ ∃ unit ∈ units, symbol ∈ unit.2.program.definedGlobals := by
  induction units generalizing index with
  | nil => simp [addUnits]
  | cons unit rest ih =>
      have hunit : (index.addUnit unit.1 unit.2).definedGlobals =
          index.definedGlobals ∪ unit.2.program.definedGlobals := rfl
      rw [addUnits, List.foldl_cons, ← addUnits, ih, hunit, Finset.mem_union, or_assoc]
      simp

theorem reapsChildren_addUnits (index : ProgramSymbolIndex) (units : NumberedUnits) :
    (index.addUnits units).reapsChildren = true ↔
      index.reapsChildren = true ∨ ∃ unit ∈ units, unit.2.reapsChildProcesses = true := by
  induction units generalizing index with
  | nil => simp [addUnits]
  | cons unit rest ih =>
      have hunit : (index.addUnit unit.1 unit.2).reapsChildren =
          (index.reapsChildren || unit.2.reapsChildProcesses) := rfl
      rw [addUnits, List.foldl_cons, ← addUnits, ih, hunit, Bool.or_eq_true, or_assoc]
      simp

-- The program creates threads when it has an entry.
theorem programCreatesThreads_iff (index : ProgramSymbolIndex) :
    index.programCreatesThreads = true ↔ ∃ symbol, index.isThreadEntry symbol = true := by
  unfold programCreatesThreads isThreadEntry entrySpawns
  cases hsites : index.spawnSitesByEntry with
  | nil => simp
  | cons site rest => exact ⟨fun _ => ⟨site.1, by simp⟩, fun _ => by simp⟩

end Unions

theorem sameAnswers_of_perm {units others : NumberedUnits} (hdistinct : (units.map Prod.fst).Nodup)
    (halike : PublishAlike units) (h : others.Perm units) :
    SameAnswers (ofUnits others) (ofUnits units) := by
  have hspawns (symbol : String) := entrySpawns_perm h symbol
  have hentries (symbol : String) :
      (ofUnits others).isThreadEntry symbol = (ofUnits units).isThreadEntry symbol := by
    rw [isThreadEntry, isThreadEntry, hspawns]
  have hothers : (others.map Prod.fst).Nodup := (h.map Prod.fst).nodup_iff.mpr hdistinct
  refine
    { spawnCount := fun symbol => by rw [spawnCount, spawnCount, hspawns]
      spawnedInLoop := fun symbol => by rw [spawnedInLoop, spawnedInLoop, hspawns]
      isThreadEntry := hentries
      lockSummaryFor := fun symbol => ?_
      joinedParametersOf := fun symbol => ?_
      resolvesHandleElsewhere := fun symbol => ?_
      isDefinedSomewhere := fun symbol => ?_
      appearsInSeveralUnits := fun symbol => ?_
      programCreatesThreads := ?_
      programReapsChildren := ?_ }
  · rw [ofUnits, ofUnits, lockSummaryFor_addUnits, lockSummaryFor_addUnits]
    rw [findSome_perm h.symm fun unit hunit next hnext => (halike unit hunit next hnext symbol).1]
  · rw [ofUnits, ofUnits, joinedParametersOf_addUnits, joinedParametersOf_addUnits]
    rw [findSome_perm h.symm fun unit hunit next hnext => (halike unit hunit next hnext symbol).2]
  · rw [resolvesHandleElsewhere, resolvesHandleElsewhere, decide_eq_decide, ofUnits, ofUnits,
      mem_resolvedHandleSymbols_addUnits, mem_resolvedHandleSymbols_addUnits]
    simp [h.mem_iff]
  · rw [isDefinedSomewhere, isDefinedSomewhere, decide_eq_decide, ofUnits, ofUnits,
      mem_definedGlobals_addUnits, mem_definedGlobals_addUnits]
    simp [h.mem_iff]
  · rw [appearsInSeveralUnits_ofUnits hothers, appearsInSeveralUnits_ofUnits hdistinct,
      (h.filter _).length_eq]
  · rw [Bool.eq_iff_iff, programCreatesThreads_iff, programCreatesThreads_iff]
    simp [hentries]
  · rw [programReapsChildren, programReapsChildren, Bool.eq_iff_iff, ofUnits, ofUnits,
      reapsChildren_addUnits, reapsChildren_addUnits]
    simp [h.mem_iff]

-- The unit that comes first decides.
theorem perm_cons_of_mem {unit : Nat × TUFacts} {units : NumberedUnits} (h : unit ∈ units) :
    ∃ rest, (unit :: rest).Perm units := by
  obtain ⟨before, behind, rfl⟩ := List.append_of_mem h
  exact ⟨before ++ behind, List.perm_middle.symm⟩

theorem lockSummaryFor_first (unit : Nat × TUFacts) (rest : NumberedUnits) {symbol : String}
    {summary : List ParameterLockEffect}
    (h : publishedOn (·.lockWrapperSummaries) symbol unit.2 = some summary) :
    (ofUnits (unit :: rest)).lockSummaryFor symbol = some summary := by
  rw [ofUnits, lockSummaryFor_addUnits, List.findSome?_cons, h]
  rfl

theorem joinedParametersOf_first (unit : Nat × TUFacts) (rest : NumberedUnits) {symbol : String}
    {joined : List JoinedParameter} (h : publishedOn (·.joiningHelpers) symbol unit.2 = some joined) :
    (ofUnits (unit :: rest)).joinedParametersOf symbol = some joined := by
  rw [ofUnits, joinedParametersOf_addUnits, List.findSome?_cons, h]
  rfl

-- The order of the units shows in no answer exactly where they publish the same of each symbol.
theorem order_free_iff (units : NumberedUnits) (hdistinct : (units.map Prod.fst).Nodup) :
    (∀ others, others.Perm units → SameAnswers (ofUnits others) (ofUnits units)) ↔
      PublishAlike units := by
  refine ⟨fun hsame unit hunit next hnext symbol => ?_,
    fun halike others h => sameAnswers_of_perm hdistinct halike h⟩
  obtain ⟨rest, hrest⟩ := perm_cons_of_mem hunit
  obtain ⟨others, hothers⟩ := perm_cons_of_mem hnext
  have hfirst := hsame _ hrest
  have hsecond := hsame _ hothers
  refine ⟨fun summary hsummary copy hcopy => ?_, fun joined hjoined copy hcopy => ?_⟩
  · have hanswers := (hfirst.lockSummaryFor symbol).trans (hsecond.lockSummaryFor symbol).symm
    rw [lockSummaryFor_first unit rest hsummary, lockSummaryFor_first next others hcopy] at hanswers
    exact Option.some_inj.mp hanswers
  · have hanswers := (hfirst.joinedParametersOf symbol).trans (hsecond.joinedParametersOf symbol).symm
    rw [joinedParametersOf_first unit rest hjoined, joinedParametersOf_first next others hcopy]
      at hanswers
    exact Option.some_inj.mp hanswers

-- A unit with an inline helper that does something to the lock it is handed.
def helperUnit (effect : ParameterLockEffect) : TUFacts where
  program := { functionSymbolsById := [("take", "take")] }
  lockWrapperSummaries := fun functionId => if functionId = "take" then some [effect] else none

theorem publishedOn_helperUnit (effect : ParameterLockEffect) :
    publishedOn (·.lockWrapperSummaries) "take" (helperUnit effect) = some [effect] := rfl

-- Two units compiled to different bodies of the helper.
theorem inline_helper_order :
    ((ofUnits [(0, helperUnit { acquires := true }), (1, helperUnit { acquires := false })]).lockSummaryFor
        "take" ≠
      (ofUnits [(1, helperUnit { acquires := false }), (0, helperUnit { acquires := true })]).lockSummaryFor
        "take") := by
  rw [lockSummaryFor_first _ _ (publishedOn_helperUnit _),
    lockSummaryFor_first _ _ (publishedOn_helperUnit _)]
  decide

theorem same_helper_order :
    SameAnswers (ofUnits [(1, helperUnit {}), (0, helperUnit {})])
      (ofUnits [(0, helperUnit {}), (1, helperUnit {})]) := by
  refine (order_free_iff [(0, helperUnit {}), (1, helperUnit {})] (by decide)).mpr ?_ _
    (List.Perm.swap _ _ _)
  intro unit hunit next hnext symbol
  have hfacts : ∀ unit ∈ [(0, helperUnit {}), (1, helperUnit {})], unit.2 = helperUnit {} := by
    simp
  rw [hfacts unit hunit, hfacts next hnext]
  refine ⟨fun summary hsummary copy hcopy => ?_, fun joined hjoined copy hcopy => ?_⟩
  · exact Option.mem_unique hsummary hcopy
  · exact Option.mem_unique hjoined hcopy

end ConcurrencyAnalyzer.ProgramSymbolIndex
