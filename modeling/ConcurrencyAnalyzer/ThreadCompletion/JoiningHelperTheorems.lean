import ConcurrencyAnalyzer.ThreadCompletion.JoiningHelpers
import ConcurrencyAnalyzer.Library.KeepFirst
import Mathlib.Data.List.Pairwise
import Mathlib.Algebra.GroupWithZero.Nat

namespace ConcurrencyAnalyzer.ThreadCompletion

open Library

section Growth

-- How much can still be learnt of a joined parameter, and of a function's.
def JoinedParameter.open (parameter : JoinedParameter) : Nat :=
  (if parameter.ended then 0 else 1) + if parameter.reported then 0 else 1

def openJoins (joined : List JoinedParameter) : Nat :=
  (kMaxJoinedParameters - joined.length) * 3 + (joined.map (·.open)).sum

def openHelpers (functions : List JoinFunction) (helpers : JoiningHelpers) : Nat :=
  ((joiningAscent functions).keys.map fun name => openJoins (helpers name)).sum

theorem record_eq_or_lt (joined : List JoinedParameter) (new : JoinedParameter) :
    record joined new = joined ∨ openJoins (record joined new) < openJoins joined := by
  unfold record openJoins
  by_cases hany : joined.any (·.samePlace new) = true
  · rw [if_pos hany, List.length_map]
    set unite : JoinedParameter → JoinedParameter := fun existing =>
      if existing.samePlace new then { existing with
        ended := existing.ended || new.ended
        reported := existing.reported || new.reported }
      else existing with hunite
    have hone (parameter : JoinedParameter) :
        unite parameter = parameter ∨ (unite parameter).open < parameter.open := by
      obtain ⟨index, byValue, offset, ended, reported⟩ := parameter
      rw [hunite]
      dsimp only
      split
      · cases ended <;> cases reported <;> cases new.ended <;> cases new.reported <;>
          simp [JoinedParameter.open]
      · exact .inl rfl
    have hall : joined.map unite = joined ∨
        ((joined.map unite).map (·.open)).sum < (joined.map (·.open)).sum := by
      clear hany
      induction joined with
      | nil => exact .inl rfl
      | cons parameter joined ih =>
          simp only [List.map_cons, List.sum_cons, List.cons.injEq]
          rcases hone parameter with hhead | hhead
          · rcases ih with htail | htail
            · exact .inl ⟨hhead, htail⟩
            · right
              rw [hhead]
              omega
          · right
            rcases ih with htail | htail
            · rw [htail]
              omega
            · omega
    rcases hall with hsame | hless
    · exact .inl hsame
    · right
      omega
  · rw [if_neg hany]
    by_cases hbound : kMaxJoinedParameters ≤ joined.length
    · rw [if_pos hbound]
      exact .inl rfl
    · rw [if_neg hbound]
      right
      have hopen : new.open ≤ 2 := by
        unfold JoinedParameter.open
        split <;> split <;> omega
      simp only [List.length_append, List.length_cons, List.length_nil, List.map_append,
        List.map_cons, List.map_nil, List.sum_append, List.sum_cons, List.sum_nil]
      omega

variable {functions : List JoinFunction}

theorem name_mem_of_find? {name : String} {function : JoinFunction}
    (hfind : functions.find? (·.name = name) = some function) :
    name ∈ (joiningAscent functions).keys := by
  refine List.mem_map.mpr ⟨function, List.mem_of_find?_eq_some hfind, ?_⟩
  simpa using List.find?_some hfind

theorem visit_eq_or_lt (helpers : JoiningHelpers) (name : String) :
    (joiningAscent functions).visit helpers name = helpers ∨
      openHelpers functions ((joiningAscent functions).visit helpers name) <
        openHelpers functions helpers := by
  have hrecord : recordJoins functions helpers name = helpers name ∨
      (name ∈ (joiningAscent functions).keys ∧
        openJoins (recordJoins functions helpers name) < openJoins (helpers name)) := by
    unfold recordJoins
    split
    · rename_i function hfind
      rcases foldl_eq_or_lt record_eq_or_lt (joinsOf helpers function) (helpers name) with hsame | hless
      · exact .inl hsame
      · exact .inr ⟨name_mem_of_find? hfind, hless⟩
    · exact .inl rfl
  rcases hrecord with hsame | ⟨hname, hless⟩
  · left
    exact (congrArg (Function.update helpers name) hsame).trans (Function.update_eq_self ..)
  · right
    refine List.sum_lt_sum _ _ (fun other _ => ?_) ⟨name, hname, ?_⟩
    · by_cases heq : other = name
      · subst heq
        rw [Ascent.visit, Function.update_self]
        exact hless.le
      · rw [Ascent.visit, Function.update_of_ne heq]
    · rw [Ascent.visit, Function.update_self]
      exact hless

end Growth

section Ends

variable (module : JoinModule) {functions : List JoinFunction}

theorem openHelpers_known (horder : functions.Perm module.functions) :
    openHelpers functions module.known ≤ functions.length * (kMaxJoinedParameters * 3) := by
  have hknown : ∀ height ∈ (joiningAscent functions).keys.map fun name =>
      openJoins (module.known name), height ≤ kMaxJoinedParameters * 3 := by
    intro height hheight
    obtain ⟨name, hname, rfl⟩ := List.mem_map.mp hheight
    obtain ⟨function, hfunction, rfl⟩ := List.mem_map.mp hname
    rw [module.declared function (horder.mem_iff.mp hfunction)]
    rfl
  have hsum := List.sum_le_card_nsmul _ _ hknown
  simpa [openHelpers, joiningAscent] using hsum

theorem round_lt_of_changed (helpers : JoiningHelpers)
    (hchanged : (joiningAscent functions).unchanged helpers
      ((joiningAscent functions).round helpers) = false) :
    openHelpers functions ((joiningAscent functions).round helpers) <
      openHelpers functions helpers := by
  rcases foldl_eq_or_lt visit_eq_or_lt (joiningAscent functions).keys helpers with hsame | hless
  · rw [Ascent.round, hsame, Ascent.unchanged] at hchanged
    simp at hchanged
  · exact hless

-- The rounds end by themselves, whatever the functions call.
theorem collectJoiningHelpers_ends (horder : functions.Perm module.functions) :
    Ends (joiningAscent functions).unchanged (joiningAscent functions).round module.known
      (collectJoiningHelpers functions module.known) :=
  @settle_ends _ _ _ (fun _ => True) (openHelpers functions) (fun _ _ => trivial)
    (fun helpers _ => round_lt_of_changed helpers) _ _ trivial (openHelpers_known module horder)

-- What every function records at the end it would record again.
theorem recordJoins_collected (horder : functions.Perm module.functions) {name : String}
    (hname : name ∈ (joiningAscent functions).keys) :
    recordJoins functions (collectJoiningHelpers functions module.known) name =
      collectJoiningHelpers functions module.known name := by
  have hround : (joiningAscent functions).round (collectJoiningHelpers functions module.known) =
      collectJoiningHelpers functions module.known :=
    @settle_fixed _ _ _ (fun _ => True) (openHelpers functions) (fun _ _ => trivial)
      (fun _ _ => Ascent.round_eq_of_unchanged) (fun helpers _ => round_lt_of_changed helpers) _ _
      trivial (openHelpers_known module horder)
  have hvisit := visit_eq_of_foldl_eq visit_eq_or_lt hround hname
  have hvalue := congrFun hvisit name
  rwa [Ascent.visit, Function.update_self] at hvalue

end Ends

section Sound

variable {module : JoinModule} {name : String} {call : JoinCall}

structure SameWay (parameter other : JoinedParameter) : Prop where
  index : parameter.index = other.index
  offset : parameter.offset = other.offset
  byValue : parameter.byValue = other.byValue

theorem SameWay.symm {parameter other : JoinedParameter} (h : SameWay parameter other) :
    SameWay other parameter := ⟨h.index.symm, h.offset.symm, h.byValue.symm⟩

theorem SameWay.trans {parameter other last : JoinedParameter} (h : SameWay parameter other)
    (hnext : SameWay other last) : SameWay parameter last :=
  ⟨h.index.trans hnext.index, h.offset.trans hnext.offset, h.byValue.trans hnext.byValue⟩

theorem samePlace_iff {parameter other : JoinedParameter} :
    parameter.samePlace other = true ↔
      parameter.index = other.index ∧ parameter.offset = other.offset := by
  simp [JoinedParameter.samePlace]

theorem SameWay.samePlace {parameter other : JoinedParameter} (h : SameWay parameter other) :
    parameter.samePlace other = true := samePlace_iff.mpr ⟨h.index, h.offset⟩

-- Each thing recorded of a joined parameter is true of some join of it.
structure Derived (module : JoinModule) (name : String) (parameter : JoinedParameter) : Prop where
  joins : ∃ other, Joins module name other ∧ SameWay other parameter
  ended : parameter.ended = true →
    ∃ other, Joins module name other ∧ SameWay other parameter ∧ other.ended = true
  reported : parameter.reported = true →
    ∃ other, Joins module name other ∧ SameWay other parameter ∧ other.reported = true

theorem Derived.of_joins {parameter : JoinedParameter} (h : Joins module name parameter) :
    Derived module name parameter where
  joins := ⟨parameter, h, rfl, rfl, rfl⟩
  ended hended := ⟨parameter, h, ⟨rfl, rfl, rfl⟩, hended⟩
  reported hreported := ⟨parameter, h, ⟨rfl, rfl, rfl⟩, hreported⟩

theorem Derived.flags {parameter other : JoinedParameter} (h : Derived module name parameter)
    (hsame : SameWay parameter other) :
    (parameter.ended = true →
      ∃ found, Joins module name found ∧ SameWay found other ∧ found.ended = true) ∧
    (parameter.reported = true →
      ∃ found, Joins module name found ∧ SameWay found other ∧ found.reported = true) := by
  constructor
  · intro hended
    obtain ⟨found, hfound, hway, hflag⟩ := h.ended hended
    exact ⟨found, hfound, hway.trans hsame, hflag⟩
  · intro hreported
    obtain ⟨found, hfound, hway, hflag⟩ := h.reported hreported
    exact ⟨found, hfound, hway.trans hsame, hflag⟩

-- A call joins the same of its caller where it joins the same of its callee.
theorem joinedBy_sameWay {joined other : JoinedParameter} {site : JoinSite}
    {parameter : JoinedParameter} (hsame : SameWay other joined)
    (hsite : helperSite call joined = some site) (hjoined : joinedBy call site = some parameter) :
    ∃ otherSite otherParameter, helperSite call other = some otherSite ∧
      joinedBy call otherSite = some otherParameter ∧ SameWay otherParameter parameter ∧
      otherParameter.ended =
        (if other.ended then true else other.reported && call.statusCovers) ∧
      otherParameter.reported = (other.reported && call.returnsResult) := by
  obtain ⟨operand, hoperand, rfl⟩ := Option.map_eq_some_iff.mp hsite
  unfold joinedBy at hjoined
  split at hjoined
  · rename_i hcovers
    obtain ⟨place, hplace, rfl⟩ := Option.map_eq_some_iff.mp hjoined
    have hother : helperSite call other = some {
        operand := operand
        byValue := other.byValue
        reportsStatus := other.reported
        ended := if other.ended then call.covers else other.reported && call.statusCovers
        offset := other.offset } := by
      rw [helperSite, hsame.index, hoperand, Option.map_some]
    refine ⟨_, ⟨place.1, place.2.2, place.2.1,
      if other.ended then call.covers else other.reported && call.statusCovers,
      other.reported && call.returnsResult⟩, hother, ?_, ⟨rfl, rfl, rfl⟩, ?_, rfl⟩
    · rw [joinedBy, if_pos hcovers]
      refine Option.map_eq_some_iff.mpr ⟨place, ?_, rfl⟩
      rw [← hplace, parameterOf, parameterOf, hsame.byValue, hsame.offset]
    · dsimp only
      rw [hcovers]
  · cases hjoined

theorem joinSites_inPlace (helpers : JoiningHelpers) (hcall : ∀ callee, call.target ≠ .function callee) :
    joinSites call helpers = joinSites call fun _ => [] := by
  unfold joinSites
  split
  · rename_i callee htarget
    exact absurd htarget (hcall callee)
  · rfl
  · rfl
  · rfl

-- What a function joins with helpers of which all that is recorded is true, it joins.
theorem derived_of_mem_joinsOf {helpers : JoiningHelpers}
    (hhelpers : ∀ name, ∀ parameter ∈ helpers name, Derived module name parameter)
    {function : JoinFunction} (hfunction : function ∈ module.functions) {parameter : JoinedParameter}
    (hmem : parameter ∈ joinsOf helpers function) : Derived module function.name parameter := by
  obtain ⟨call, hcall, hmem⟩ := List.mem_flatMap.mp hmem
  obtain ⟨site, hsite, hjoined⟩ := List.mem_filterMap.mp hmem
  by_cases htarget : ∃ callee, call.target = .function callee
  · obtain ⟨callee, htarget⟩ := htarget
    rw [joinSites, htarget] at hsite
    obtain ⟨joined, hin, hsite⟩ := List.mem_filterMap.mp hsite
    have hcallee := hhelpers callee joined hin
    have hthrough {other : JoinedParameter} (hother : Joins module callee other)
        (hsame : SameWay other joined) :
        ∃ result, Joins module function.name result ∧ SameWay result parameter ∧
          result.ended = (if other.ended then true else other.reported && call.statusCovers) ∧
          result.reported = (other.reported && call.returnsResult) := by
      obtain ⟨otherSite, result, hotherSite, hresult, hway, hended, hreported⟩ :=
        joinedBy_sameWay hsame hsite hjoined
      exact ⟨result, .through hfunction hcall htarget hother hotherSite hresult, hway, hended,
        hreported⟩
    obtain ⟨ownSite, own, hownSite, hown, _, hended, hreported⟩ :=
      joinedBy_sameWay ⟨rfl, rfl, rfl⟩ hsite hjoined
    obtain rfl : own = parameter := by
      rw [hsite, Option.some.injEq] at hownSite
      rw [← hownSite, hjoined, Option.some.injEq] at hown
      exact hown.symm
    refine ⟨?_, ?_, ?_⟩
    · obtain ⟨other, hother, hsame⟩ := hcallee.joins
      obtain ⟨result, hresult, hway, _⟩ := hthrough hother hsame
      exact ⟨result, hresult, hway⟩
    · intro h
      rw [hended] at h
      split at h
      · rename_i hjoinedEnded
        obtain ⟨other, hother, hsame, hotherEnded⟩ := hcallee.ended hjoinedEnded
        obtain ⟨result, hresult, hway, hresultEnded, _⟩ := hthrough hother hsame
        exact ⟨result, hresult, hway, by rw [hresultEnded, if_pos hotherEnded]⟩
      · rw [Bool.and_eq_true] at h
        obtain ⟨other, hother, hsame, hotherReported⟩ := hcallee.reported h.1
        obtain ⟨result, hresult, hway, hresultEnded, _⟩ := hthrough hother hsame
        refine ⟨result, hresult, hway, ?_⟩
        rw [hresultEnded, hotherReported, h.2]
        simp
    · intro h
      rw [hreported, Bool.and_eq_true] at h
      obtain ⟨other, hother, hsame, hotherReported⟩ := hcallee.reported h.1
      obtain ⟨result, hresult, hway, _, hresultReported⟩ := hthrough hother hsame
      exact ⟨result, hresult, hway, by rw [hresultReported, hotherReported, h.2]; rfl⟩
  · rw [joinSites_inPlace helpers (not_exists.mp htarget)] at hsite
    exact .of_joins (.inPlace hfunction hcall hsite hjoined)

def Distinct (joined : List JoinedParameter) : Prop :=
  joined.Pairwise fun parameter other => parameter.samePlace other = false

theorem mem_record {joined : List JoinedParameter} {new parameter : JoinedParameter}
    (hmem : parameter ∈ record joined new) :
    parameter ∈ joined ∨ parameter = new ∨ ∃ existing ∈ joined, existing.samePlace new = true ∧
      parameter = { existing with
        ended := existing.ended || new.ended, reported := existing.reported || new.reported } := by
  unfold record at hmem
  split at hmem
  · obtain ⟨existing, hexisting, rfl⟩ := List.mem_map.mp hmem
    split
    · rename_i hsame
      exact .inr (.inr ⟨existing, hexisting, hsame, rfl⟩)
    · exact .inl hexisting
  · split at hmem
    · exact .inl hmem
    · rcases List.mem_append.mp hmem with hmem | hmem
      · exact .inl hmem
      · exact .inr (.inl (List.mem_singleton.mp hmem))

theorem derived_of_mem_record (hway : OneWay module) {function : JoinFunction}
    (hfunction : function ∈ module.functions) {joined : List JoinedParameter}
    {new parameter : JoinedParameter} (hmem : parameter ∈ record joined new)
    (hjoined : ∀ existing ∈ joined, Derived module function.name existing)
    (hnew : Derived module function.name new) : Derived module function.name parameter := by
  rcases mem_record hmem with hmem | rfl | ⟨existing, hexisting, hsame, rfl⟩
  · exact hjoined parameter hmem
  · exact hnew
  · have hold := hjoined existing hexisting
    obtain ⟨first, hfirst, hfirstWay⟩ := hold.joins
    obtain ⟨second, hsecond, hsecondWay⟩ := hnew.joins
    obtain ⟨hindex, hoffset⟩ := samePlace_iff.mp hsame
    have hplace : first.samePlace second = true := samePlace_iff.mpr
      ⟨(hfirstWay.index.trans hindex).trans hsecondWay.index.symm,
        (hfirstWay.offset.trans hoffset).trans hsecondWay.offset.symm⟩
    have hvalue := hway function hfunction first second hfirst hsecond hplace
    have hsameWay : SameWay new existing := ⟨hindex.symm, hoffset.symm,
      (hsecondWay.byValue.symm.trans hvalue.symm).trans hfirstWay.byValue⟩
    have hkept : SameWay existing { existing with
        ended := existing.ended || new.ended, reported := existing.reported || new.reported } :=
      ⟨rfl, rfl, rfl⟩
    obtain ⟨holdEnded, holdReported⟩ := hold.flags hkept
    obtain ⟨hnewEnded, hnewReported⟩ := hnew.flags (hsameWay.trans hkept)
    exact ⟨⟨first, hfirst, hfirstWay.index, hfirstWay.offset, hfirstWay.byValue⟩,
      fun h => (Bool.or_eq_true_iff.mp h).elim holdEnded hnewEnded,
      fun h => (Bool.or_eq_true_iff.mp h).elim holdReported hnewReported⟩

theorem distinct_record {joined : List JoinedParameter} (h : Distinct joined)
    (new : JoinedParameter) : Distinct (record joined new) := by
  unfold record Distinct
  split
  · rw [List.pairwise_map]
    refine h.imp fun {parameter other} hdistinct => ?_
    split <;> split <;> exact hdistinct
  · rename_i hany
    split
    · exact h
    · rw [List.pairwise_append]
      refine ⟨h, List.pairwise_singleton _ _, fun parameter hmem other hother => ?_⟩
      rw [List.mem_singleton.mp hother]
      simpa using fun hsame => hany (List.any_eq_true.mpr ⟨parameter, hmem, hsame⟩)

-- All that is recorded is true, of distinct places, and nothing is of functions only declared.
structure Faithful (module : JoinModule) (functions : List JoinFunction) (helpers : JoiningHelpers) :
    Prop where
  derived : ∀ name, ∀ parameter ∈ helpers name, Derived module name parameter
  distinct : ∀ function ∈ functions, Distinct (helpers function.name)
  declared : ∀ name, name ∉ (joiningAscent functions).keys → helpers name = module.known name

variable {functions : List JoinFunction}

theorem Faithful.visit (hway : OneWay module) (horder : functions.Perm module.functions)
    {helpers : JoiningHelpers} (h : Faithful module functions helpers) {name : String}
    (hname : name ∈ (joiningAscent functions).keys) :
    Faithful module functions ((joiningAscent functions).visit helpers name) := by
  have hrecorded : (∀ parameter ∈ recordJoins functions helpers name, Derived module name parameter) ∧
      (Distinct (helpers name) → Distinct (recordJoins functions helpers name)) := by
    unfold recordJoins
    split
    · rename_i function hfind
      have hmem := horder.mem_iff.mp (List.mem_of_find?_eq_some hfind)
      obtain rfl : function.name = name := by simpa using List.find?_some hfind
      have hjoins : ∀ parameter ∈ joinsOf helpers function,
          Derived module function.name parameter :=
        fun parameter hparameter => derived_of_mem_joinsOf h.derived hmem hparameter
      have hstart := h.derived function.name
      generalize joinsOf helpers function = joins at hjoins ⊢
      generalize helpers function.name = joined at hstart ⊢
      induction joins generalizing joined with
      | nil => exact ⟨hstart, id⟩
      | cons new joins ih =>
          obtain ⟨hnew, hjoins⟩ := List.forall_mem_cons.mp hjoins
          obtain ⟨hderived, hdistinct⟩ := ih hjoins (record joined new)
            fun parameter hparameter => derived_of_mem_record hway hmem hparameter hstart hnew
          exact ⟨hderived, fun hjoined => hdistinct (distinct_record hjoined new)⟩
    · exact ⟨h.derived name, id⟩
  refine ⟨fun other => ?_, fun function hfunction => ?_, fun other hother => ?_⟩
  · by_cases heq : other = name
    · subst heq
      rw [Ascent.visit, Function.update_self]
      exact hrecorded.1
    · rw [Ascent.visit, Function.update_of_ne heq]
      exact h.derived other
  · by_cases heq : function.name = name
    · rw [heq, Ascent.visit, Function.update_self]
      exact hrecorded.2 (heq ▸ h.distinct function hfunction)
    · rw [Ascent.visit, Function.update_of_ne heq]
      exact h.distinct function hfunction
  · have hne : other ≠ name := fun heq => hother (heq ▸ hname)
    rw [Ascent.visit, Function.update_of_ne hne]
    exact h.declared other hother

theorem collected_faithful (hway : OneWay module) (horder : functions.Perm module.functions) :
    Faithful module functions (collectJoiningHelpers functions module.known) := by
  refine Ascent.solve_invariant (fun helpers name hname h => h.visit hway horder hname) _ ?_
  refine ⟨fun name parameter hmem => .of_joins (.known hmem), fun function hfunction => ?_,
    fun _ _ => rfl⟩
  rw [module.declared function (horder.mem_iff.mp hfunction)]
  exact List.Pairwise.nil

end Sound

section Complete

variable {module : JoinModule} {functions : List JoinFunction} (hbound : WithinBound module)
  (hway : OneWay module) (horder : functions.Perm module.functions)

theorem samePlace_comm (parameter other : JoinedParameter) :
    parameter.samePlace other = other.samePlace parameter := by
  rw [Bool.eq_iff_iff, samePlace_iff, samePlace_iff]
  exact ⟨fun h => ⟨h.1.symm, h.2.symm⟩, fun h => ⟨h.1.symm, h.2.symm⟩⟩

theorem Distinct.unique {joined : List JoinedParameter} (hdistinct : Distinct joined)
    {held other : JoinedParameter} (hheld : held ∈ joined) (hother : other ∈ joined)
    (hway : SameWay held other) : held = other := by
  by_contra hne
  have hsymm : Std.Symm fun left right : JoinedParameter => left.samePlace right = false :=
    ⟨fun left right h => by rwa [samePlace_comm]⟩
  have hplace := List.Pairwise.forall hdistinct hheld hother hne
  rw [hway.samePlace] at hplace
  cases hplace

-- What recording leaves alone was recorded already, or found no room.
theorem record_eq_self {joined : List JoinedParameter} {new : JoinedParameter}
    (hsame : record joined new = joined) :
    (∃ existing ∈ joined, existing.samePlace new = true ∧ (new.ended = true → existing.ended = true) ∧
      (new.reported = true → existing.reported = true)) ∨
    (kMaxJoinedParameters ≤ joined.length ∧
      ∀ existing ∈ joined, existing.samePlace new = false) := by
  unfold record at hsame
  split at hsame
  · rename_i hany
    obtain ⟨existing, hmem, hplace⟩ := List.any_eq_true.mp hany
    have hunited := List.map_inj_left.mp (hsame.trans (List.map_id joined).symm) existing hmem
    rw [if_pos hplace, id_eq] at hunited
    refine .inl ⟨existing, hmem, hplace, fun h => ?_, fun h => ?_⟩
    · have hended := congrArg JoinedParameter.ended hunited
      rw [← hended]
      dsimp only
      rw [h, Bool.or_true]
    · have hreported := congrArg JoinedParameter.reported hunited
      rw [← hreported]
      dsimp only
      rw [h, Bool.or_true]
  · rename_i hany
    split at hsame
    · rename_i hfull
      refine .inr ⟨hfull, fun existing hmem => ?_⟩
      simpa using fun hplace => hany (List.any_eq_true.mpr ⟨existing, hmem, hplace⟩)
    · have hlength := congrArg List.length hsame
      simp at hlength

include hbound in
-- Where a function joins a place that is not recorded, fewer are than may be.
theorem has_room {function : JoinFunction} (hfunction : function ∈ module.functions)
    {joined : List JoinedParameter} (hdistinct : Distinct joined)
    (hderived : ∀ existing ∈ joined, Derived module function.name existing)
    {other : JoinedParameter} (hother : Joins module function.name other)
    (hnone : ∀ existing ∈ joined, existing.samePlace other = false) :
    joined.length < kMaxJoinedParameters := by
  have hjoins : ∀ existing ∈ joined,
      ∃ first, Joins module function.name first ∧ SameWay first existing :=
    fun existing hexisting => (hderived existing hexisting).joins
  choose! first hfirst hway using hjoins
  have hplace {existing : JoinedParameter} (hexisting : existing ∈ joined)
      (parameter : JoinedParameter) :
      (first existing).samePlace parameter = existing.samePlace parameter := by
    simp only [JoinedParameter.samePlace, (hway existing hexisting).index,
      (hway existing hexisting).offset]
  have hall : Distinct (joined.map first ++ [other]) := by
    rw [Distinct, List.pairwise_append]
    refine ⟨?_, List.pairwise_singleton _ _, ?_⟩
    · rw [List.pairwise_map]
      refine hdistinct.imp_of_mem fun {parameter last} hparameter hlast hne => ?_
      rw [hplace hparameter]
      simp only [JoinedParameter.samePlace, (hway last hlast).index, (hway last hlast).offset]
      exact hne
    · intro parameter hparameter last hlast
      obtain ⟨existing, hexisting, rfl⟩ := List.mem_map.mp hparameter
      rw [List.mem_singleton.mp hlast, hplace hexisting]
      exact hnone existing hexisting
  have hcount := hbound function hfunction _ hall (by
    intro parameter hparameter
    rcases List.mem_append.mp hparameter with hparameter | hparameter
    · obtain ⟨existing, hexisting, rfl⟩ := List.mem_map.mp hparameter
      exact hfirst existing hexisting
    · exact List.mem_singleton.mp hparameter ▸ hother)
  rw [List.length_append, List.length_map, List.length_singleton] at hcount
  omega

include hbound hway horder

-- What a function joins with what is recorded at the end is recorded of it.
theorem recorded_of_mem_joinsOf {function : JoinFunction} (hfunction : function ∈ module.functions)
    {parameter : JoinedParameter}
    (hmem : parameter ∈ joinsOf (collectJoiningHelpers functions module.known) function)
    {other : JoinedParameter} (hother : Joins module function.name other)
    (hotherWay : SameWay other parameter) :
    ∃ existing ∈ collectJoiningHelpers functions module.known function.name,
      SameWay existing parameter ∧ (parameter.ended = true → existing.ended = true) ∧
        (parameter.reported = true → existing.reported = true) := by
  have hfaithful := collected_faithful hway horder
  have hin := horder.mem_iff.mpr hfunction
  have hfixed := recordJoins_collected module horder (List.mem_map_of_mem hin)
  have hdistinct : (functions.map (·.name)).Nodup :=
    (horder.map _).nodup_iff.mpr module.distinct
  unfold recordJoins at hfixed
  rw [KeepFirst.find?_of_mem hdistinct hin] at hfixed
  rcases record_eq_self (visit_eq_of_foldl_eq record_eq_or_lt hfixed hmem) with
    ⟨existing, hexisting, hplace, hflags⟩ | ⟨hfull, hnone⟩
  · obtain ⟨first, hfirst, hfirstWay⟩ := (hfaithful.derived _ existing hexisting).joins
    obtain ⟨hindex, hoffset⟩ := samePlace_iff.mp hplace
    have hplaces : first.samePlace other = true := samePlace_iff.mpr
      ⟨(hfirstWay.index.trans hindex).trans hotherWay.index.symm,
        (hfirstWay.offset.trans hoffset).trans hotherWay.offset.symm⟩
    have hvalue := hway function hfunction first other hfirst hother hplaces
    refine ⟨existing, hexisting, ⟨hindex, hoffset, ?_⟩, hflags⟩
    exact (hfirstWay.byValue.symm.trans hvalue).trans hotherWay.byValue
  · have hnot : ∀ existing ∈ collectJoiningHelpers functions module.known function.name,
        existing.samePlace other = false := by
      intro existing hexisting
      simp only [JoinedParameter.samePlace, hotherWay.index, hotherWay.offset]
      exact hnone existing hexisting
    have hroom := has_room hbound hfunction (hfaithful.distinct function hin)
      (hfaithful.derived function.name) hother hnot
    omega

-- All that a function joins is recorded.
theorem recorded_of_joins {name : String} {parameter : JoinedParameter}
    (h : Joins module name parameter) :
    ∃ existing ∈ collectJoiningHelpers functions module.known name,
      SameWay existing parameter ∧ (parameter.ended = true → existing.ended = true) ∧
        (parameter.reported = true → existing.reported = true) := by
  induction h with
  | @known name parameter hknown =>
      have hname : name ∉ (joiningAscent functions).keys := by
        intro hname
        obtain ⟨function, hfunction, rfl⟩ := List.mem_map.mp hname
        rw [module.declared function (horder.mem_iff.mp hfunction)] at hknown
        exact absurd hknown List.not_mem_nil
      rw [(collected_faithful hway horder).declared name hname]
      exact ⟨parameter, hknown, ⟨rfl, rfl, rfl⟩, id, id⟩
  | @inPlace function call site parameter hfunction hcall hsite hjoined =>
      have hsites : site ∈ joinSites call (collectJoiningHelpers functions module.known) := by
        by_cases htarget : ∃ callee, call.target = .function callee
        · obtain ⟨callee, htarget⟩ := htarget
          rw [joinSites, htarget] at hsite
          exact absurd hsite List.not_mem_nil
        · rwa [joinSites_inPlace _ (not_exists.mp htarget)]
      have hmem : parameter ∈ joinsOf (collectJoiningHelpers functions module.known) function :=
        List.mem_flatMap.mpr ⟨call, hcall, List.mem_filterMap.mpr ⟨site, hsites, hjoined⟩⟩
      exact recorded_of_mem_joinsOf hbound hway horder hfunction hmem
        (.inPlace hfunction hcall hsite hjoined) ⟨rfl, rfl, rfl⟩
  | @through function call callee joined site parameter hfunction hcall htarget hcallee hsite hjoined
      ih =>
      obtain ⟨held, hheld, hheldWay, hheldEnded, hheldReported⟩ := ih
      obtain ⟨heldSite, result, hheldSite, hresult, hresultWay, hended, hreported⟩ :=
        joinedBy_sameWay hheldWay hsite hjoined
      obtain ⟨ownSite, own, hownSite, hown, _, hownEnded, hownReported⟩ :=
        joinedBy_sameWay ⟨rfl, rfl, rfl⟩ hsite hjoined
      obtain rfl : own = parameter := by
        rw [hsite, Option.some.injEq] at hownSite
        rw [← hownSite, hjoined, Option.some.injEq] at hown
        exact hown.symm
      have hsites : heldSite ∈ joinSites call (collectJoiningHelpers functions module.known) := by
        rw [joinSites, htarget]
        exact List.mem_filterMap.mpr ⟨held, hheld, hheldSite⟩
      have hmem : result ∈ joinsOf (collectJoiningHelpers functions module.known) function :=
        List.mem_flatMap.mpr ⟨call, hcall, List.mem_filterMap.mpr ⟨heldSite, hsites, hresult⟩⟩
      obtain ⟨existing, hexisting, hway', hflagEnded, hflagReported⟩ :=
        recorded_of_mem_joinsOf hbound hway horder hfunction hmem
          (.through hfunction hcall htarget hcallee hsite hjoined) hresultWay.symm
      refine ⟨existing, hexisting, hway'.trans hresultWay, fun h => hflagEnded ?_,
        fun h => hflagReported ?_⟩
      · rw [hownEnded] at h
        rw [hended]
        split at h
        · rename_i hjoinedEnded
          rw [if_pos (hheldEnded hjoinedEnded)]
        · rw [Bool.and_eq_true] at h
          rw [hheldReported h.1, h.2]
          simp
      · rw [hownReported, Bool.and_eq_true] at h
        rw [hreported, hheldReported h.1, h.2]
        rfl

-- A flag that is true of some join is recorded where the place is.
theorem flags_recorded {function : JoinFunction} (hfunction : function ∈ functions)
    {parameter other : JoinedParameter}
    (hmem : parameter ∈ collectJoiningHelpers functions module.known function.name)
    (hother : Derived module function.name other) (hsame : SameWay other parameter) :
    (other.ended = true → parameter.ended = true) ∧
      (other.reported = true → parameter.reported = true) := by
  obtain ⟨hended, hreported⟩ := hother.flags hsame
  have hdistinct := (collected_faithful hway horder).distinct function hfunction
  constructor
  · intro h
    obtain ⟨found, hfound, hfoundWay, hflag⟩ := hended h
    obtain ⟨held, hheld, hheldWay, hkept, _⟩ := recorded_of_joins hbound hway horder hfound
    have hthis := Distinct.unique hdistinct hheld hmem (hheldWay.trans hfoundWay)
    exact hthis ▸ hkept hflag
  · intro h
    obtain ⟨found, hfound, hfoundWay, hflag⟩ := hreported h
    obtain ⟨held, hheld, hheldWay, _, hkept⟩ := recorded_of_joins hbound hway horder hfound
    have hthis := Distinct.unique hdistinct hheld hmem (hheldWay.trans hfoundWay)
    exact hthis ▸ hkept hflag

theorem mem_collected_of_mem {others : List JoinFunction} (hothers : others.Perm module.functions)
    {name : String} {parameter : JoinedParameter}
    (hmem : parameter ∈ collectJoiningHelpers functions module.known name) :
    parameter ∈ collectJoiningHelpers others module.known name := by
  have hfaithful := collected_faithful hway horder
  have hotherFaithful := collected_faithful hway hothers
  by_cases hname : name ∈ (joiningAscent functions).keys
  · obtain ⟨function, hfunction, rfl⟩ := List.mem_map.mp hname
    have hotherIn : function ∈ others := hothers.mem_iff.mpr (horder.mem_iff.mp hfunction)
    have hderived := hfaithful.derived _ parameter hmem
    obtain ⟨first, hfirst, hfirstWay⟩ := hderived.joins
    obtain ⟨existing, hexisting, hexistingWay, _⟩ := recorded_of_joins hbound hway hothers hfirst
    have hsame := hexistingWay.trans hfirstWay
    -- Places are recorded once in each order, so what is recorded of this one agrees.
    obtain ⟨hended, hreported⟩ := flags_recorded hbound hway horder hfunction hmem
      (hotherFaithful.derived _ existing hexisting) hsame
    obtain ⟨hotherEnded, hotherReported⟩ := flags_recorded hbound hway hothers hotherIn hexisting
      hderived hsame.symm
    have hendedSame : existing.ended = parameter.ended := Bool.eq_iff_iff.mpr ⟨hended, hotherEnded⟩
    have hreportedSame : existing.reported = parameter.reported :=
      Bool.eq_iff_iff.mpr ⟨hreported, hotherReported⟩
    have hequal : existing = parameter := by
      obtain ⟨hindex, hoffset, hbyValue⟩ := hsame
      cases existing
      cases parameter
      simp_all
    exact hequal ▸ hexisting
  · have hother : name ∉ (joiningAscent others).keys := by
      intro hin
      obtain ⟨function, hfunction, rfl⟩ := List.mem_map.mp hin
      exact hname (List.mem_map_of_mem (horder.mem_iff.mpr (hothers.mem_iff.mp hfunction)))
    rw [hotherFaithful.declared name hother]
    rwa [hfaithful.declared name hname] at hmem

end Complete

section OrderOfFunctions

-- Collecting ends for every module, and in whatever order the functions are listed with the same joined
-- parameters, where no function joins more places than are recorded, and none in two ways.
theorem joining_helpers_collected (module : JoinModule) :
    (∀ functions, functions.Perm module.functions →
      Ends (joiningAscent functions).unchanged (joiningAscent functions).round module.known
        (collectJoiningHelpers functions module.known)) ∧
    (WithinBound module → OneWay module → ∀ functions others, functions.Perm module.functions →
      others.Perm module.functions → ∀ name parameter,
        parameter ∈ collectJoiningHelpers functions module.known name ↔
          parameter ∈ collectJoiningHelpers others module.known name) := by
  refine ⟨fun functions horder => collectJoiningHelpers_ends module horder, ?_⟩
  intro hbound hway functions others horder hothers name parameter
  exact ⟨mem_collected_of_mem hbound hway horder hothers,
    mem_collected_of_mem hbound hway hothers horder⟩

def stdJoinAt (steps : List Int) : JoinCall where
  target := .stdThreadJoin
  operands := [{ address := some ⟨0, steps⟩ }]
  covers := true
  statusCovers := false
  returnsResult := false

def helperCallAt (name : String) (steps : List Int) : JoinCall :=
  { stdJoinAt steps with target := .function name }

-- A function joins the thread it is handed, and another a member of what it is handed.
def wrapped : JoinModule where
  functions := [⟨"join", [stdJoinAt []]⟩, ⟨"joinMember", [helperCallAt "join" [8]]⟩]
  known _ := []
  distinct := by decide
  declared _ _ := rfl

theorem mem_wrapped {function : JoinFunction} {call : JoinCall}
    (hfunction : function ∈ wrapped.functions) (hcall : call ∈ function.calls) :
    (function.name = "join" ∧ call = stdJoinAt []) ∨
      (function.name = "joinMember" ∧ call = helperCallAt "join" [8]) := by
  simp only [wrapped, List.mem_cons, List.not_mem_nil, or_false] at hfunction
  rcases hfunction with rfl | rfl
  · exact .inl ⟨rfl, List.mem_singleton.mp hcall⟩
  · exact .inr ⟨rfl, List.mem_singleton.mp hcall⟩

theorem joins_wrapped {name : String} {parameter : JoinedParameter}
    (h : Joins wrapped name parameter) :
    (name = "join" ∧ parameter = ⟨0, false, 0, true, false⟩) ∨
      (name = "joinMember" ∧ parameter = ⟨0, false, 8, true, false⟩) := by
  induction h with
  | known hknown => exact absurd hknown List.not_mem_nil
  | @inPlace function call site parameter hfunction hcall hsite hjoined =>
      rcases mem_wrapped hfunction hcall with ⟨hname, rfl⟩ | ⟨_, rfl⟩
      · refine .inl ⟨hname, ?_⟩
        have hsites : joinSites (stdJoinAt []) (fun _ => []) =
            [⟨{ address := some ⟨0, []⟩ }, false, false, true, 0⟩] := rfl
        rw [hsites, List.mem_singleton] at hsite
        subst hsite
        exact (Option.some.inj hjoined).symm
      · exact absurd hsite List.not_mem_nil
  | @through function call callee joined site parameter hfunction hcall htarget _ hsite hjoined ih =>
      rcases mem_wrapped hfunction hcall with ⟨_, rfl⟩ | ⟨hname, rfl⟩
      · cases htarget
      · obtain rfl : "join" = callee := JoinTarget.function.inj htarget
        rcases ih with ⟨_, rfl⟩ | ⟨hne, _⟩
        · refine .inr ⟨hname, ?_⟩
          cases hsite
          exact (Option.some.inj hjoined).symm
        · exact absurd hne (by decide)

theorem joining_helpers_collected_wrapped :
    ∀ name parameter, parameter ∈ collectJoiningHelpers wrapped.functions wrapped.known name ↔
      parameter ∈ collectJoiningHelpers wrapped.functions.reverse wrapped.known name := by
  have hone (function : JoinFunction) (parameter other : JoinedParameter)
      (hparameter : Joins wrapped function.name parameter)
      (hother : Joins wrapped function.name other) : parameter = other := by
    rcases joins_wrapped hparameter with ⟨hname, rfl⟩ | ⟨hname, rfl⟩ <;>
      rcases joins_wrapped hother with ⟨hotherName, rfl⟩ | ⟨hotherName, rfl⟩
    · rfl
    · exact absurd (hname.symm.trans hotherName) (by decide)
    · exact absurd (hname.symm.trans hotherName) (by decide)
    · rfl
  have hbound : WithinBound wrapped := by
    intro function _ joined hdistinct hjoins
    by_contra hlarge
    obtain ⟨first, second, rest, rfl⟩ : ∃ first second rest, joined = first :: second :: rest := by
      rcases joined with _ | ⟨first, _ | ⟨second, rest⟩⟩
      · exact absurd (Nat.zero_le _) hlarge
      · exact absurd (show 1 ≤ kMaxJoinedParameters by decide) hlarge
      · exact ⟨first, second, rest, rfl⟩
    have hsame := hone function first second (hjoins first (List.mem_cons_self ..))
      (hjoins second (List.mem_cons_of_mem _ (List.mem_cons_self ..)))
    have hplace := (List.pairwise_cons.mp hdistinct).1 second (List.mem_cons_self ..)
    rw [hsame, samePlace_iff.mpr ⟨rfl, rfl⟩] at hplace
    cases hplace
  have hway : OneWay wrapped := by
    intro function _ parameter other hparameter hother _
    rw [hone function parameter other hparameter hother]
  exact (joining_helpers_collected wrapped).2 hbound hway _ _ (List.Perm.refl _)
    (List.reverse_perm _)

-- A function joins seven members of what it is handed, and two more through helpers.
def crowded : JoinModule where
  functions := [⟨"first", [stdJoinAt []]⟩,
    ⟨"caller", [stdJoinAt [0], stdJoinAt [8], stdJoinAt [16], stdJoinAt [24], stdJoinAt [32],
      stdJoinAt [40], stdJoinAt [48], helperCallAt "first" [56], helperCallAt "second" [64]]⟩,
    ⟨"second", [stdJoinAt []]⟩]
  known _ := []
  distinct := by decide
  declared _ _ := rfl

theorem joining_helpers_order_seen :
    ¬∀ functions others, functions.Perm crowded.functions → others.Perm crowded.functions →
      ∀ name parameter, parameter ∈ collectJoiningHelpers functions crowded.known name ↔
        parameter ∈ collectJoiningHelpers others crowded.known name := by
  intro hfree
  have hsame := hfree crowded.functions crowded.functions.reverse (List.Perm.refl _)
    (List.reverse_perm _) "caller" ⟨0, false, 56, true, false⟩
  have hfirst : ⟨0, false, 56, true, false⟩ ∈
      collectJoiningHelpers crowded.functions crowded.known "caller" := by decide
  have hsecond : ⟨0, false, 56, true, false⟩ ∉
      collectJoiningHelpers crowded.functions.reverse crowded.known "caller" := by decide
  exact hsecond (hsame.mp hfirst)

end OrderOfFunctions

end ConcurrencyAnalyzer.ThreadCompletion
