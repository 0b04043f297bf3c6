import ConcurrencyAnalyzer.CompileCommand.Filters

namespace ConcurrencyAnalyzer.CompileCommand

open Library.OptionStream

inductive Target where
  | LL
  | BC
  deriving DecidableEq, Repr

def build : Target → CompileRequest → List Arg
  | .LL => buildLL
  | .BC => buildBC

def Target.form : Target → String
  | .LL => "-S"
  | .BC => "-c"

def Arg.fromUser (arg : Arg) : Bool :=
  match arg.origin with
  | .user _ => true
  | _ => false

def ownTokens (target : Target) (request : CompileRequest) : List String :=
  ["-O0", "-emit-llvm", target.form, "-g", request.inputFile]

-- The builder's flags take effect: no `-O` follows its own, nothing of the user's takes one of them
-- as its value (which options take one is the compiler's to say), and what an `-Xclang` hands on
-- stays with it.
structure KeepsOwnFlags (takesValue : String → Bool) (target : Target) (request : CompileRequest)
    (args : List Arg) : Prop where
  present : ∀ token ∈ ownTokens target request, hasExactToken args token = true
  lastLevel : ∃ before after, args = before ++ unoptimized :: after ∧
    (∀ arg ∈ after, startsWith "-O" arg.text = false) ∧ awaiting handsOn before = none
  untaken : ∀ before arg after, args = before ++ arg :: after → arg.fromUser = false →
    ∀ option, awaiting (fun arg => takesValue arg.text) before = some option →
      option.fromUser = false
  together : ∀ option value, (option, value) ∈ pairs handsOn (userArgs request) →
    [option, value] <:+: args ∨ (option ∉ args ∧ value ∉ args)

def erased : Target → List Arg → List Arg
  | .LL, args => args
  | .BC, args => args.filter (·.text ≠ "-S")

-- The user's arguments as they reach the filter of the output path, and as they leave it.
def filtered (target : Target) (request : CompileRequest) : List Arg :=
  erased target (removeWarningsAsErrors (userArgs request))

def kept (target : Target) (request : CompileRequest) : List Arg :=
  removeOutputPathArgs (filtered target request)

def takenAsOutput (target : Target) (request : CompileRequest) (arg : Arg) : Prop :=
  ∃ front back, filtered target request = front ++ arg :: back ∧ awaiting takesOutput front ≠ none

def dropsValue (target : Target) (text : String) : Bool :=
  startsWith "-o" text || (target = .BC && text = "-S")

-- Nothing of the user's is left open at its end, the input is no level of its own, and a filter
-- that drops one half of an `-Xclang` pair drops the other.
structure LeavesNothingOpen (takesValue : String → Bool) (target : Target)
    (request : CompileRequest) : Prop where
  output : awaiting takesOutput (filtered target request) = none
  xclang : awaiting handsOn (kept target request) = none
  option : awaiting (fun arg => takesValue arg.text) (kept target request) = none
  input : startsWith "-O" request.inputFile = true →
    request.inputFile = "-O0" ∨ hasExactToken (kept target request) request.inputFile = true
  pairs : ∀ option value, (option, value) ∈ pairs handsOn (userArgs request) →
    turnsWarningsIntoErrors value.text = false →
    (dropsValue target value.text = true ↔ takenAsOutput target request option)

section Shape

variable (takesValue : String → Bool) (target : Target) (request : CompileRequest)

theorem userArgs_nodup : (userArgs request).Nodup := by
  have hposition : ((userArgs request).map (·.origin)).Nodup := by
    rw [userArgs, List.map_map]
    have hmap : (Arg.origin ∘ fun entry : String × Nat => ⟨entry.1, .user entry.2⟩) =
        Origin.user ∘ Prod.snd := rfl
    rw [hmap, ← List.map_map, List.zipIdx_map_snd]
    exact List.Nodup.map (fun _ _ h => Origin.user.inj h) List.nodup_range'
  exact List.Nodup.of_map _ hposition

theorem filtered_sublist : (filtered target request).Sublist (userArgs request) := by
  have h := removeWarningsAsErrors_sublist (userArgs request)
  cases target with
  | LL => exact h
  | BC => exact List.filter_sublist.trans h

theorem fromUser_of_mem_kept {arg : Arg} (h : arg ∈ kept target request) : arg.fromUser = true := by
  have hmem := ((removeOutputPathArgs_sublist _).trans (filtered_sublist target request)).subset h
  obtain ⟨entry, -, rfl⟩ := List.mem_map.mp hmem
  rfl

def finish (form inputFile : String) (args : List Arg) : List Arg :=
  appendIfMissing (appendIfMissing (appendIfMissing (appendIfMissing args
    ⟨"-emit-llvm", .flag⟩) ⟨form, .flag⟩) ⟨"-g", .flag⟩) ⟨inputFile, .input⟩

theorem build_eq :
    build target request = finish target.form request.inputFile
      (kept target request ++
        if (awaiting takesOutput (filtered target request)).isSome then [] else [unoptimized]) := by
  have hlevel : turnsWarningsIntoErrors unoptimized.text = false := by decide
  have hform : erased target (removeWarningsAsErrors (forceUnoptimizedCodegen (userArgs request))) =
      filtered target request ++ [unoptimized] := by
    rw [forceUnoptimizedCodegen, removeWarningsAsErrors_append_singleton hlevel]
    cases target with
    | LL => rfl
    | BC => exact List.filter_append ..
  have hbuild : build target request = finish target.form request.inputFile (removeOutputPathArgs
      (erased target (removeWarningsAsErrors (forceUnoptimizedCodegen (userArgs request))))) := by
    cases target <;> rfl
  have hoption : startsWith "-o" unoptimized.text = false := by decide
  rw [hbuild, hform, removeOutputPathArgs_append_singleton, hoption, Bool.or_false]
  rfl

theorem appendIfMissing_eq (args : List Arg) (arg : Arg) :
    appendIfMissing args arg = args ++ if hasExactToken args arg.text then [] else [arg] := by
  rw [appendIfMissing]
  split <;> simp

theorem hasExactToken_append (args more : List Arg) (token : String) :
    hasExactToken (args ++ more) token = (hasExactToken args token || hasExactToken more token) :=
  List.any_append ..

theorem hasExactToken_appendIfMissing (args : List Arg) (arg : Arg) (token : String) :
    hasExactToken (appendIfMissing args arg) token =
      (hasExactToken args token || arg.text = token) := by
  rw [appendIfMissing_eq, hasExactToken_append]
  by_cases h : hasExactToken args arg.text
  · rw [if_pos h]
    by_cases htoken : arg.text = token
    · subst htoken
      simp [h]
    · simp [htoken, hasExactToken]
  · rw [if_neg h]
    simp [hasExactToken]

theorem present_finish {form inputFile token : String} {args : List Arg}
    (h : hasExactToken args token = true ∨ token ∈ ["-emit-llvm", form, "-g", inputFile]) :
    hasExactToken (finish form inputFile args) token = true := by
  simp only [finish, hasExactToken_appendIfMissing, Bool.or_eq_true, decide_eq_true_eq]
  rcases h with h | h
  · simp [h]
  · simp only [List.mem_cons, List.not_mem_nil, or_false] at h
    rcases h with rfl | rfl | rfl | rfl <;> simp

-- The builder's own arguments come last, and of these only the input can start like a level.
theorem exists_finish {form : String} (hform : startsWith "-O" form = false) (inputFile : String)
    (args : List Arg) :
    ∃ flags, finish form inputFile args = args ++ (flags ++
        if hasExactToken (args ++ flags) inputFile then [] else [⟨inputFile, .input⟩]) ∧
      ∀ arg ∈ flags, arg.origin = .flag ∧ startsWith "-O" arg.text = false := by
  have hstep : ∀ (args : List Arg) (token : String), startsWith "-O" token = false →
      ∃ flags, appendIfMissing args ⟨token, .flag⟩ = args ++ flags ∧
        ∀ arg ∈ flags, arg.origin = .flag ∧ startsWith "-O" arg.text = false := by
    intro args token htoken
    refine ⟨_, appendIfMissing_eq args _, fun arg harg => ?_⟩
    split_ifs at harg
    · simp at harg
    · rw [List.mem_singleton.mp harg]
      exact ⟨rfl, htoken⟩
  obtain ⟨emit, hemit, hemitFlags⟩ := hstep args "-emit-llvm" (by decide)
  obtain ⟨formed, hformed, hformedFlags⟩ := hstep (args ++ emit) form hform
  obtain ⟨debug, hdebug, hdebugFlags⟩ := hstep (args ++ emit ++ formed) "-g" (by decide)
  refine ⟨emit ++ formed ++ debug, ?_, ?_⟩
  · rw [finish, hemit, hformed, hdebug, appendIfMissing_eq]
    simp only [List.append_assoc]
  · intro arg harg
    rw [List.mem_append, List.mem_append] at harg
    rcases harg with (harg | harg) | harg
    · exact hemitFlags arg harg
    · exact hformedFlags arg harg
    · exact hdebugFlags arg harg

-- What the builder adds, behind what it keeps of the user's arguments.
theorem exists_build :
    ∃ level own, build target request = kept target request ++ (level ++ own) ∧
      level = (if (awaiting takesOutput (filtered target request)).isSome then []
        else [unoptimized]) ∧
      (∀ arg ∈ own, arg.fromUser = false ∧ arg ≠ unoptimized) ∧
      ((∃ arg ∈ own, startsWith "-O" arg.text = true) ↔
        startsWith "-O" request.inputFile = true ∧
          hasExactToken (kept target request ++ level) request.inputFile = false) := by
  have hform : startsWith "-O" target.form = false := by cases target <;> decide
  obtain ⟨level, hlevel⟩ : ∃ level, level = if (awaiting takesOutput
    (filtered target request)).isSome then [] else [unoptimized] := ⟨_, rfl⟩
  obtain ⟨flags, hfinish, hflags⟩ := exists_finish hform request.inputFile
    (kept target request ++ level)
  refine ⟨level, _, by rw [build_eq, ← hlevel, hfinish, List.append_assoc], hlevel, ?_, ?_⟩
  · intro arg harg
    rcases List.mem_append.mp harg with harg | harg
    · have horigin := (hflags arg harg).1
      exact ⟨by rw [Arg.fromUser, horigin], fun h => by simp [h, unoptimized] at horigin⟩
    · split_ifs at harg
      · simp at harg
      · rw [List.mem_singleton.mp harg]
        exact ⟨rfl, by simp [unoptimized]⟩
  · constructor
    · rintro ⟨arg, harg, hstarts⟩
      rcases List.mem_append.mp harg with harg | harg
      · simp [(hflags arg harg).2] at hstarts
      · split_ifs at harg with hpresent
        · simp at harg
        · rw [List.mem_singleton.mp harg] at hstarts
          rw [hasExactToken_append, Bool.or_eq_true, not_or] at hpresent
          exact ⟨hstarts, eq_false_of_ne_true hpresent.1⟩
    · rintro ⟨hstarts, habsent⟩
      have hflag : hasExactToken flags request.inputFile = false := by
        rw [hasExactToken, List.any_eq_false]
        intro arg harg heq
        rw [decide_eq_true_eq] at heq
        simp [← heq, (hflags arg harg).2] at hstarts
      refine ⟨⟨request.inputFile, .input⟩, List.mem_append_right _ ?_, hstarts⟩
      rw [if_neg (by rw [hasExactToken_append, habsent, hflag]; decide)]
      exact List.mem_singleton_self _

end Shape

section Pairs

variable {target : Target} {request : CompileRequest} {option value : Arg}

theorem filtered_nodup : (filtered target request).Nodup :=
  (userArgs_nodup request).sublist (filtered_sublist target request)

theorem mem_filtered_iff {arg : Arg} :
    arg ∈ filtered target request ↔ arg ∈ removeWarningsAsErrors (userArgs request) ∧
      (target = .BC && arg.text = "-S") = false := by
  cases target <;> simp [filtered, erased]

theorem eq_front_of_split {arg : Arg} {front back other otherBack : List Arg}
    (h : filtered target request = front ++ arg :: back)
    (h' : filtered target request = other ++ arg :: otherBack) : front = other := by
  have hnodup : (front ++ arg :: back).Nodup := h ▸ filtered_nodup
  have hsplit := List.nodup_middle.mp hnodup
  obtain ⟨harg, -⟩ := List.nodup_cons.mp hsplit
  rw [List.mem_append, not_or] at harg
  exact ((List.append_cons_inj_of_notMem harg.1 harg.2).mp (h.symm.trans h')).1

theorem mem_kept_of_handsOn (hhands : handsOn option = true)
    (hmem : option ∈ filtered target request) :
    option ∈ kept target request ↔ ¬takenAsOutput target request option := by
  rw [kept, mem_removeOutputPathArgs_iff]
  constructor
  · rintro ⟨front, back, heq, hwaiting, -⟩ ⟨other, otherBack, hother, hne⟩
    rw [← eq_front_of_split heq hother] at hne
    exact hne hwaiting
  · intro htaken
    obtain ⟨front, back, heq⟩ := List.append_of_mem hmem
    refine ⟨front, back, heq, ?_, not_output_of_handsOn hhands⟩
    by_contra hne
    exact htaken ⟨front, back, heq, hne⟩

theorem infix_filtered (hhands : handsOn option = true)
    (hadjacent : [option, value] <:+: removeWarningsAsErrors (userArgs request))
    (hvalue : value ∈ filtered target request) : [option, value] <:+: filtered target request := by
  cases target with
  | LL => exact hadjacent
  | BC =>
      have hoption : option.text ≠ "-S" := by
        rw [handsOn, decide_eq_true_eq] at hhands
        rw [hhands]
        decide
      have hfiltered := List.IsInfix.filter (fun arg : Arg => decide (arg.text ≠ "-S")) hadjacent
      have hvalueText : value.text ≠ "-S" := by simpa using (mem_filtered_iff.mp hvalue).2
      simpa [hoption, hvalueText, filtered, erased] using hfiltered

theorem mem_kept_of_handedOn (hhands : handsOn option = true)
    (hadjacent : [option, value] <:+: removeWarningsAsErrors (userArgs request)) :
    value ∈ kept target request ↔ dropsValue target value.text = false := by
  have hfilter : value ∈ filtered target request ↔
      (target = .BC && value.text = "-S") = false := by
    rw [mem_filtered_iff, and_iff_right (hadjacent.subset (by simp))]
  rw [dropsValue, Bool.or_eq_false_iff, ← hfilter, kept, mem_removeOutputPathArgs_iff]
  constructor
  · rintro ⟨front, back, heq, -, hstarts⟩
    exact ⟨hstarts, by simp [heq]⟩
  · rintro ⟨hstarts, hmem⟩
    obtain ⟨front, back, heq⟩ := infix_filtered hhands hadjacent hmem
    have houtput : takesOutput option = false := by
      rw [handsOn, decide_eq_true_eq] at hhands
      rw [takesOutput, hhands]
      decide
    refine ⟨front ++ [option], back, by simp [← heq], ?_, hstarts⟩
    rw [awaiting_append_singleton]
    cases awaiting takesOutput front <;> simp [readToken, houtput]

theorem infix_kept_iff (hpair : (option, value) ∈ pairs handsOn (userArgs request)) :
    [option, value] <:+: kept target request ↔
      option ∈ kept target request ∧ value ∈ kept target request := by
  constructor
  · intro h
    exact ⟨h.subset (by simp), h.subset (by simp)⟩
  · rintro ⟨hoption, hvalue⟩
    exact infix_of_sublist (pairs_adjacent hpair).2
      ((removeOutputPathArgs_sublist _).trans (filtered_sublist target request))
      (userArgs_nodup request) hoption hvalue

theorem together_kept_iff (hpair : (option, value) ∈ pairs handsOn (userArgs request)) :
    ([option, value] <:+: kept target request ∨
      (option ∉ kept target request ∧ value ∉ kept target request)) ↔
      (turnsWarningsIntoErrors value.text = false →
        (dropsValue target value.text = true ↔ takenAsOutput target request option)) := by
  have hhands := (pairs_adjacent hpair).1
  have hsub : (kept target request).Sublist (filtered target request) :=
    removeOutputPathArgs_sublist _
  cases hturns : turnsWarningsIntoErrors value.text with
  | true =>
      obtain ⟨hoption, hvalue⟩ :=
        pair_notMem_removeWarningsAsErrors (userArgs_nodup request) hpair hturns
      have hnone : option ∉ kept target request ∧ value ∉ kept target request :=
        ⟨fun h => hoption (mem_filtered_iff.mp (hsub.subset h)).1,
          fun h => hvalue (mem_filtered_iff.mp (hsub.subset h)).1⟩
      simp [hnone]
  | false =>
      have hadjacent := pair_infix_removeWarningsAsErrors hpair hturns
      have hoptionMem : option ∈ filtered target request := by
        rw [mem_filtered_iff]
        refine ⟨hadjacent.subset (by simp), ?_⟩
        rw [handsOn, decide_eq_true_eq] at hhands
        simp [hhands]
      have hoption := mem_kept_of_handsOn hhands hoptionMem
      have hvalue := @mem_kept_of_handedOn target request option value hhands hadjacent
      rw [infix_kept_iff hpair, hoption, hvalue]
      cases dropsValue target value.text <;> simp

end Pairs

section Ends

variable {takesValue : String → Bool} {target : Target} {request : CompileRequest}

theorem unoptimized_notMem_kept : unoptimized ∉ kept target request := by
  intro h
  exact absurd (fromUser_of_mem_kept target request h) (by decide)

-- All that stands behind the user's arguments is the builder's.
theorem fromUser_level_own {own : List Arg}
    (hown : ∀ arg ∈ own, arg.fromUser = false ∧ arg ≠ unoptimized) :
    ∀ arg ∈ [unoptimized] ++ own, arg.fromUser = false := by
  intro arg harg
  rcases List.mem_append.mp harg with harg | harg
  · rw [List.mem_singleton.mp harg]
    rfl
  · exact (hown arg harg).1

-- An option that waits behind the user's arguments is one of the builder's.
theorem fromUser_awaiting {takes : Arg → Bool} {own : List Arg} {option : Arg}
    (hkept : awaiting takes (kept target request) = none)
    (hown : ∀ arg ∈ own, arg.fromUser = false)
    (h : awaiting takes (kept target request ++ own) = some option) : option.fromUser = false := by
  rw [awaiting_append hkept] at h
  exact hown option (mem_of_awaiting h)

theorem fromUser_of_pair {option value : Arg}
    (hpair : (option, value) ∈ pairs handsOn (userArgs request)) :
    option.fromUser = true ∧ value.fromUser = true := by
  have huser : ∀ arg ∈ userArgs request, arg.fromUser = true := by
    intro arg harg
    obtain ⟨entry, -, rfl⟩ := List.mem_map.mp harg
    rfl
  have hsub := (pairs_adjacent hpair).2.subset
  exact ⟨huser option (hsub (by simp)), huser value (hsub (by simp))⟩

-- Nothing the builder adds stands in the way of a pair.
theorem together_append_iff {own : List Arg} (hown : ∀ arg ∈ own, arg.fromUser = false)
    {option value : Arg} (hpair : (option, value) ∈ pairs handsOn (userArgs request)) :
    ([option, value] <:+: kept target request ++ own ∨
      (option ∉ kept target request ++ own ∧ value ∉ kept target request ++ own)) ↔
      ([option, value] <:+: kept target request ∨
        (option ∉ kept target request ∧ value ∉ kept target request)) := by
  obtain ⟨hoption, hvalue⟩ := fromUser_of_pair hpair
  have hmem : ∀ arg : Arg, arg.fromUser = true →
      (arg ∈ kept target request ++ own ↔ arg ∈ kept target request) := by
    intro arg harg
    rw [List.mem_append, or_iff_left]
    intro h
    simp [hown arg h] at harg
  have hadjacent : [option, value] <:+: kept target request ++ own ↔
      [option, value] <:+: kept target request := by
    constructor
    · intro h
      rw [infix_kept_iff hpair]
      exact ⟨(hmem option hoption).mp (h.subset (by simp)),
        (hmem value hvalue).mp (h.subset (by simp))⟩
    · intro h
      exact h.trans (List.prefix_append _ _).isInfix
  rw [hadjacent, hmem option hoption, hmem value hvalue]

theorem keepsOwnFlags_of_leavesNothingOpen (h : LeavesNothingOpen takesValue target request) :
    KeepsOwnFlags takesValue target request (build target request) := by
  obtain ⟨level, own, hbuild, hlevel, hown, hinput⟩ := exists_build target request
  rw [h.output] at hlevel
  have hlevel : level = [unoptimized] := hlevel
  subst hlevel
  have hall := fromUser_level_own hown
  refine ⟨?_, ⟨kept target request, own, by rw [hbuild]; rfl, ?_, h.xclang⟩, ?_, ?_⟩
  · intro token htoken
    rw [build_eq, h.output]
    apply present_finish
    rcases List.mem_cons.mp htoken with rfl | htoken
    · left
      simp [hasExactToken, unoptimized]
    · exact Or.inr htoken
  · intro arg harg
    by_contra hstarts
    obtain ⟨hstart, habsent⟩ := hinput.mp ⟨arg, harg, eq_true_of_ne_false hstarts⟩
    rw [hasExactToken_append, Bool.or_eq_false_iff] at habsent
    rcases h.input hstart with hsame | hkept
    · simp [hsame, hasExactToken, unoptimized] at habsent
    · simp [hkept] at habsent
  · intro before arg after hsplit harg option hawaiting
    rw [hbuild] at hsplit
    rcases List.append_eq_append_iff.mp hsplit with ⟨more, rfl, hrest⟩ | ⟨more, hkept, hrest⟩
    · refine fromUser_awaiting h.option (fun other hother => hall other ?_) hawaiting
      rw [hrest]
      exact List.mem_append_left _ hother
    · cases more with
      | nil =>
          rw [List.append_nil] at hkept
          simp [← hkept, h.option] at hawaiting
      | cons first more =>
          obtain ⟨rfl, -⟩ := List.cons.inj hrest
          have hmem : arg ∈ kept target request := by simp [hkept]
          have huser := fromUser_of_mem_kept target request hmem
          exact absurd (harg.symm.trans huser) (by decide)
  · intro option value hpair
    rw [hbuild, together_append_iff hall hpair]
    exact (together_kept_iff hpair).mpr (h.pairs option value hpair)

theorem leavesNothingOpen_of_keepsOwnFlags
    (h : KeepsOwnFlags takesValue target request (build target request)) :
    LeavesNothingOpen takesValue target request := by
  obtain ⟨level, own, hbuild, hlevel, hown, hinput⟩ := exists_build target request
  obtain ⟨before, after, hsplit, hafter, hxclang⟩ := h.lastLevel
  have houtput : awaiting takesOutput (filtered target request) = none := by
    by_contra hopen
    rw [if_pos (Option.isSome_iff_ne_none.mpr hopen)] at hlevel
    have hmem : unoptimized ∈ build target request := by simp [hsplit]
    rw [hbuild, hlevel, List.nil_append, List.mem_append] at hmem
    rcases hmem with hmem | hmem
    · exact unoptimized_notMem_kept hmem
    · exact (hown _ hmem).2 rfl
  rw [houtput] at hlevel
  have hlevel : level = [unoptimized] := hlevel
  subst hlevel
  have hall := fromUser_level_own hown
  rw [hbuild, List.singleton_append] at hsplit
  obtain ⟨rfl, -, rfl⟩ := (List.append_cons_inj_of_notMem unoptimized_notMem_kept
    fun hmem => (hown _ hmem).2 rfl).mp hsplit
  refine ⟨houtput, hxclang, ?_, ?_, ?_⟩
  · by_contra hopen
    obtain ⟨option, hoption⟩ := Option.ne_none_iff_exists'.mp hopen
    have hown := h.untaken _ unoptimized own (by rw [hbuild]; rfl) rfl option hoption
    exact absurd (hown.symm.trans (fromUser_of_mem_kept _ _ (mem_of_awaiting hoption))) (by decide)
  · intro hstart
    by_contra hnot
    rw [not_or] at hnot
    obtain ⟨arg, harg, hstarts⟩ := hinput.mpr ⟨hstart, by
      rw [hasExactToken_append, eq_false_of_ne_true hnot.2]
      simpa [hasExactToken, unoptimized, eq_comm] using hnot.1⟩
    simp [hafter arg harg] at hstarts
  · intro option value hpair
    rw [← together_kept_iff hpair, ← together_append_iff hall hpair, ← hbuild]
    exact h.together option value hpair

end Ends

-- The flags of the builder take effect exactly where no argument of the user is left open and no
-- half of an `-Xclang` pair goes alone, whatever options the compiler has that take a value.
theorem own_flags_kept_iff (takesValue : String → Bool) (target : Target)
    (request : CompileRequest) :
    KeepsOwnFlags takesValue target request (build target request) ↔
      LeavesNothingOpen takesValue target request :=
  ⟨leavesNothingOpen_of_keepsOwnFlags, keepsOwnFlags_of_leavesNothingOpen⟩

def opaquePointers : CompileRequest where
  inputFile := "a.c"
  extraCompileArgs := ["-Xclang", "-opaque-pointers"]

-- The filter of the output path drops what `-Xclang` hands on, and the builder's `-O0` is handed on
-- in its place.
theorem level_handed_on :
    (build .LL opaquePointers).map (·.text) =
      ["-Xclang", "-O0", "-emit-llvm", "-S", "-g", "a.c"] ∧
      ¬∃ takesValue, KeepsOwnFlags takesValue .LL opaquePointers (build .LL opaquePointers) := by
  refine ⟨by decide, ?_⟩
  rintro ⟨takesValue, h⟩
  have hxclang := (leavesNothingOpen_of_keepsOwnFlags h).xclang
  revert hxclang
  decide

end ConcurrencyAnalyzer.CompileCommand
