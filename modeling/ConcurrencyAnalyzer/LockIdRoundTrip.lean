import ConcurrencyAnalyzer.FactsBuilder.LockOrders
import ConcurrencyAnalyzer.MemoryRegions

namespace ConcurrencyAnalyzer

open FactsBuilder Library

-- Whether `parameterLockPlace` throws: on an index past 64 bits, and past a plus sign on what starts
-- with no number, or with one past 64 bits.
def readingThrows (lockId : String) : Bool :=
  let text := lockId.toList
  let rest := text.drop kParameterLockPrefix.toList.length
  let index := rest.takeWhile Char.isDigit
  let suffix := rest.dropWhile Char.isDigit
  kParameterLockPrefix.toList.isPrefixOf text && !index.isEmpty &&
    (2 ^ 64 ≤ decimalValue index || (suffix.head? = some '+' && (stoll suffix.tail).isNone))

-- What `lockIdRoot` returns, where it returns.
def readLockId (lockId : String) : Option RootBinding :=
  if readingThrows lockId then none else some (lockIdRoot lockId)

theorem readLockId_eq_some {lockId : String} {root : RootBinding} :
    readLockId lockId = some root ↔ readingThrows lockId = false ∧ lockIdRoot lockId = root := by
  unfold readLockId
  cases readingThrows lockId <;> simp

-- The offset of a place in a place, unknown where either is.
def offsetSum (outer inner : MemoryRegion) : Option Int :=
  outer.knownOffset.bind fun offset => inner.knownOffset.map fun further => offset + further

-- An object that a lock id tells apart from every other: a parameter of a function, or a symbol that
-- reads back as itself.
def NamesItself (object : RootBinding) : Prop :=
  match object.kind with
  | .Argument => object.argumentIndex < 2 ^ 32
  | .Global => readLockId object.symbol = some (RootBinding.global object.symbol {})

-- What a lock id tells of a place in an object.
def RootBinding.atOffset (object : RootBinding) (offset : Option Int) : RootBinding :=
  match object.kind with
  | .Argument => RootBinding.argument object.argumentIndex (placeAt offset)
  | .Global => RootBinding.global object.symbol (placeAt offset)

-- The text of a lock id before the place it names in the object.
def RootBinding.lockName (object : RootBinding) : String :=
  match object.kind with
  | .Argument => kParameterLockPrefix ++ toString object.argumentIndex
  | .Global => object.symbol

def FitsOffset (offset : Option Int) : Prop := ∀ value ∈ offset, FitsInt64 value

instance (offset : Option Int) : Decidable (FitsOffset offset) :=
  inferInstanceAs (Decidable (∀ value ∈ offset, FitsInt64 value))

section Symbols

-- A text that the parser of parameters takes as a symbol, without throwing.
inductive SymbolText : List Char → Prop
  | other {text : List Char} (hstart : ¬kParameterLockPrefix.toList <+: text) : SymbolText text
  | unnumbered {rest : List Char} (hfirst : ∀ first ∈ rest.head?, first.isDigit = false) :
      SymbolText (kParameterLockPrefix.toList ++ rest)
  | numbered {digits rest : List Char} {first : Char}
      (hdigits : ∀ c ∈ digits, c.isDigit = true) (hne : digits.isEmpty = false)
      (hsmall : ¬2 ^ 64 ≤ decimalValue digits) (hfirst : first.isDigit = false)
      (hplus : first ≠ '+') (hunknown : first :: rest ≠ "[*]".toList) :
      SymbolText (kParameterLockPrefix.toList ++ (digits ++ first :: rest))

theorem SymbolText.reads {lockId : String} (h : SymbolText lockId.toList) :
    parameterLockPlace lockId = none ∧ readingThrows lockId = false := by
  unfold parameterLockPlace readingThrows
  generalize lockId.toList = text at h
  cases h with
  | other hstart =>
      have hstarts : kParameterLockPrefix.toList.isPrefixOf text = false := by
        rwa [Bool.eq_false_iff, ne_eq, List.isPrefixOf_iff_prefix]
      simp [hstarts]
  | @unnumbered rest hfirst =>
      have hstarts : kParameterLockPrefix.toList.isPrefixOf (kParameterLockPrefix.toList ++ rest) =
          true := List.isPrefixOf_iff_prefix.mpr (List.prefix_append _ _)
      have htake := (@takeWhile_digits [] rest (by simp) hfirst).1
      rw [List.nil_append] at htake
      simp only [hstarts, List.drop_left, htake]
      simp
  | @numbered digits rest first hdigits hne hsmall hfirst hplus hunknown =>
      have hstarts : kParameterLockPrefix.toList.isPrefixOf
          (kParameterLockPrefix.toList ++ (digits ++ first :: rest)) = true :=
        List.isPrefixOf_iff_prefix.mpr (List.prefix_append _ _)
      obtain ⟨htake, hdrop⟩ := @takeWhile_digits digits (first :: rest) hdigits (by simpa using hfirst)
      simp only [hstarts, List.drop_left, htake, hdrop, hne, hsmall, hunknown, if_false]
      refine ⟨?_, by simp [hplus]⟩
      simp only [Bool.not_true, Bool.false_eq_true, if_false, Bool.false_or, decide_false]
      split
      · rename_i heq
        cases heq
      · rename_i heq
        exact absurd (List.cons.inj heq).1 hplus
      · rfl

theorem symbolText_of_reads {lockId : String} (hplace : parameterLockPlace lockId = none)
    (hreads : readingThrows lockId = false) : SymbolText lockId.toList := by
  by_cases hstart : kParameterLockPrefix.toList <+: lockId.toList
  · obtain ⟨rest, hrest⟩ := hstart
    have hstarts : kParameterLockPrefix.toList.isPrefixOf (kParameterLockPrefix.toList ++ rest) =
        true := List.isPrefixOf_iff_prefix.mpr (List.prefix_append _ _)
    have hdigits : ∀ c ∈ rest.takeWhile Char.isDigit, c.isDigit = true :=
      List.all_eq_true.mp List.all_takeWhile
    have hafter : ∀ first ∈ (rest.dropWhile Char.isDigit).head?, first.isDigit = false := by
      intro first hfirst
      have hnot := List.head?_dropWhile_not Char.isDigit rest
      rw [Option.mem_def.mp hfirst] at hnot
      simpa using hnot
    have hsplit := List.takeWhile_append_dropWhile (p := Char.isDigit) (l := rest)
    unfold parameterLockPlace at hplace
    unfold readingThrows at hreads
    rw [← hrest] at hplace hreads ⊢
    simp only [hstarts, List.drop_left] at hplace hreads
    generalize rest.takeWhile Char.isDigit = digits at hplace hreads hdigits hsplit
    generalize rest.dropWhile Char.isDigit = suffix at hplace hreads hafter hsplit
    rw [← hsplit]
    cases hempty : digits.isEmpty with
    | true =>
        rw [List.isEmpty_iff.mp hempty, List.nil_append]
        exact .unnumbered hafter
    | false =>
        have hsmall : ¬2 ^ 64 ≤ decimalValue digits := by
          intro hlarge
          simp [hempty] at hreads
          omega
        simp only [hempty, hsmall, Bool.not_true, Bool.false_eq_true, if_false, Bool.false_or,
          decide_false] at hplace hreads
        cases suffix with
        | nil => cases hplace
        | cons first tail =>
            have hunknown : first :: tail ≠ "[*]".toList := by
              intro heq
              rw [if_pos heq] at hplace
              cases hplace
            have hplus : first ≠ '+' := by
              rintro rfl
              rw [if_neg hunknown] at hplace
              simp only [Option.map_eq_none_iff] at hplace
              simp [hplace] at hreads
            exact .numbered hdigits hempty hsmall (hafter first rfl) hplus hunknown
  · exact .other hstart

theorem append_offsetText_ne_unknown {text : List Char} (hne : text ≠ [])
    (hunknown : text ≠ "[*]".toList) (offset : Option Int) :
    text ++ (offsetText offset).toList ≠ "[*]".toList := by
  intro heq
  cases offset with
  | none =>
      have hlength := congrArg List.length heq
      rw [List.length_append, offsetText] at hlength
      exact hne (List.length_eq_zero_iff.mp (by omega))
  | some offset =>
      rcases offsetText_some_toList offset with ⟨hempty, -⟩ | ⟨hsome, -⟩
      · rw [hempty, List.append_nil] at heq
        exact hunknown heq
      · rw [hsome] at heq
        have hplus : '+' ∈ "[*]".toList := heq ▸ List.mem_append_right _ (List.mem_cons_self ..)
        exact absurd hplus (by decide)

-- The place printed after a symbol leaves it a symbol: it starts with neither a digit nor a letter.
theorem SymbolText.append {text : List Char} (h : SymbolText text) (offset : Option Int) :
    SymbolText (text ++ (offsetText offset).toList) := by
  have hhead := offsetText_head offset
  cases h with
  | other hstart =>
      refine .other fun hlonger => ?_
      rcases List.prefix_or_prefix_of_prefix hlonger (List.prefix_append text _) with
        hin | ⟨rest, hrest⟩
      · exact hstart hin
      · rw [← hrest, List.prefix_append_right_inj] at hlonger
        cases rest with
        | nil =>
            rw [List.append_nil] at hrest
            exact hstart (hrest ▸ List.prefix_rfl)
        | cons first rest =>
            have hmem : first ∈ kParameterLockPrefix.toList :=
              hrest ▸ List.mem_append_right _ (List.mem_cons_self ..)
            obtain ⟨tail, htail⟩ := hlonger
            rcases hhead first (by rw [← htail]; rfl) with rfl | rfl
            · exact absurd hmem (by decide)
            · exact absurd hmem (by decide)
  | @unnumbered rest hfirst =>
      rw [List.append_assoc]
      refine .unnumbered ?_
      cases rest with
      | nil =>
          intro first hmem
          rcases hhead first hmem with rfl | rfl
          · rfl
          · rfl
      | cons first rest => exact hfirst
  | numbered hdigits hne hsmall hfirst hplus hunknown =>
      rw [List.append_assoc, List.append_assoc, List.cons_append]
      exact .numbered hdigits hne hsmall hfirst hplus
        (append_offsetText_ne_unknown (List.cons_ne_nil _ _) hunknown offset)

end Symbols

section Offsets

theorem splitAtLastPlus_append {name number : List Char} (h : '+' ∉ number) :
    splitAtLastPlus (name ++ '+' :: number) = some (name, number) := by
  have hnumber : ∀ c ∈ number.reverse, decide (c ≠ '+') = true := by
    intro c hc
    refine decide_eq_true fun heq => h ?_
    rw [← heq]
    exact List.mem_reverse.mp hc
  unfold splitAtLastPlus
  rw [List.reverse_append, List.reverse_cons, List.append_assoc,
    List.takeWhile_append_of_pos hnumber, List.dropWhile_append_of_pos hnumber]
  simp

theorem wholeOffset_intText {offset : Int} (h : FitsInt64 offset) :
    wholeOffset (toString offset).toList = some offset := by
  have hplus : (toString offset).toList.head? ≠ some '+' := fun hhead =>
    notMem_intText (by decide) (by decide) offset (List.mem_of_mem_head? hhead)
  have hdigits : ∀ c ∈ Nat.toDigits 10 offset.natAbs, c.isDigit = true :=
    fun _ => isDigit_of_mem_toDigits
  unfold wholeOffset
  rw [stoll_toString h.1 h.2, if_pos]
  rw [Bool.and_eq_true, decide_eq_true_eq]
  refine ⟨?_, hplus⟩
  rw [toList_intText]
  by_cases hnegative : offset < 0
  · rw [if_pos hnegative]
    exact List.all_eq_true.mpr hdigits
  · rw [if_neg hnegative]
    split
    · rename_i htext
      exact absurd (hdigits '-' (htext ▸ List.mem_cons_self ..)) (by decide)
    · exact List.all_eq_true.mpr hdigits

theorem unknown_not_suffix (name : List Char) (offset : Int) :
    ¬"[*]".toList <:+ name ++ '+' :: (toString offset).toList := by
  intro hsuffix
  rcases List.suffix_or_suffix_of_suffix hsuffix (List.suffix_append name _) with hin | hin
  · have hbracket : '[' ∈ '+' :: (toString offset).toList := hin.subset (by decide)
    rcases List.mem_cons.mp hbracket with heq | hmem
    · exact absurd heq (by decide)
    · exact notMem_intText (by decide) (by decide) offset hmem
  · have hplus : '+' ∈ "[*]".toList := hin.subset (List.mem_cons_self ..)
    exact absurd hplus (by decide)

-- A symbol that reads back as itself reads back at any place printed after it.
theorem readLockId_symbol {symbol : String}
    (h : readLockId symbol = some (RootBinding.global symbol {})) {offset : Option Int}
    (hfits : FitsOffset offset) :
    readLockId (symbol ++ offsetText offset) = some (RootBinding.global symbol (placeAt offset)) := by
  obtain ⟨hreads, hroot⟩ := readLockId_eq_some.mp h
  have hplace : parameterLockPlace symbol = none := by
    have hkind := congrArg RootBinding.kind hroot
    unfold lockIdRoot at hkind
    split at hkind
    · cases hkind
    · assumption
  have hsymbol := (symbolText_of_reads hplace hreads).append offset
  rw [← String.toList_append] at hsymbol
  obtain ⟨hplaceAfter, hreadsAfter⟩ := hsymbol.reads
  refine readLockId_eq_some.mpr ⟨hreadsAfter, ?_⟩
  by_cases hzero : offset = some 0
  · rw [hzero]
    simpa [offsetText, placeAt] using hroot
  · unfold lockIdRoot
    rw [hplaceAfter]
    dsimp only
    cases offset with
    | none =>
        rw [String.toList_append, if_pos]
        · simp [offsetText, placeAt]
        · exact List.isSuffixOf_iff_suffix.mpr (List.suffix_append _ _)
    | some offset =>
        have htext : (symbol ++ offsetText (some offset)).toList =
            symbol.toList ++ '+' :: (toString offset).toList := by
          simp [offsetText, Option.some_inj.not.mp hzero]
        have hoffset := wholeOffset_intText (hfits offset rfl)
        rw [htext, if_neg, splitAtLastPlus_append (notMem_intText (by decide) (by decide) offset)]
        · simp only [hoffset, String.ofList_toList, placeAt]
        · rw [List.isSuffixOf_iff_suffix]
          exact unknown_not_suffix _ _

theorem readingThrows_of_place {lockId : String} {place : ParameterLockPlace}
    (h : parameterLockPlace lockId = some place) : readingThrows lockId = false := by
  unfold parameterLockPlace at h
  unfold readingThrows
  dsimp only at h ⊢
  split at h
  · cases h
  · split at h
    · cases h
    · rename_i hindex
      rw [Bool.or_eq_true, not_or, decide_eq_true_eq] at hindex
      rw [decide_eq_false hindex.2, Bool.false_or]
      split at h
      · rename_i hunknown
        rw [hunknown]
        simp
      · split at h
        · rename_i hempty
          rw [hempty]
          simp
        · rename_i offset hplus
          obtain ⟨byteOffset, hoffset, -⟩ := Option.map_eq_some_iff.mp h
          rw [hplus, List.tail_cons, hoffset]
          simp
        · cases h

theorem readLockId_parameter {index : Nat} (hindex : index < 2 ^ 32) {offset : Option Int}
    (hfits : FitsOffset offset) :
    readLockId (kParameterLockPrefix ++ toString index ++ offsetText offset) =
      some (RootBinding.argument index (placeAt offset)) := by
  have hplace := parameterLockPlace_parameter hindex
    fun value hvalue => int64_of_fits (hfits value hvalue)
  refine readLockId_eq_some.mpr ⟨readingThrows_of_place hplace, ?_⟩
  rw [lockIdRoot, hplace]

end Offsets

section Places

-- An unknown offset on either side leaves the place unknown.
theorem offsetSum_eq (outer inner : MemoryRegion) : offsetSum outer inner =
    if outer.hasKnownOffset && inner.hasKnownOffset then some (outer.byteOffset + inner.byteOffset)
    else none := by
  unfold offsetSum MemoryRegion.knownOffset
  cases outer.hasKnownOffset <;> cases inner.hasKnownOffset <;> rfl

theorem knownOffset_placeAt (offset : Option Int) : (placeAt offset).knownOffset = offset := by
  cases offset <;> rfl

theorem offsetSum_assoc (outer middle inner : MemoryRegion) :
    offsetSum (placeAt (offsetSum outer middle)) inner =
      offsetSum outer (placeAt (offsetSum middle inner)) := by
  unfold offsetSum
  rw [knownOffset_placeAt, knownOffset_placeAt]
  cases outer.knownOffset with
  | none => rfl
  | some offset =>
      cases middle.knownOffset with
      | none => rfl
      | some further => cases inner.knownOffset <;> simp [Int.add_assoc]

variable {object : RootBinding}

theorem lockIdAt_eq {place : MemoryRegion} (hfits : FitsOffset (offsetSum object.region place)) :
    lockIdAt object place = object.lockName ++ offsetText (offsetSum object.region place) := by
  have hposition : ({
      hasKnownOffset := object.region.hasKnownOffset && place.hasKnownOffset
      byteOffset := int64 (object.region.byteOffset + place.byteOffset) } : MemoryRegion).suffix =
      offsetText (offsetSum object.region place) := by
    rw [suffix_eq rfl, offsetSum_eq]
    rw [offsetSum_eq] at hfits
    unfold MemoryRegion.knownOffset
    dsimp only
    split
    · rename_i hknown
      rw [int64_of_fits (hfits _ (if_pos hknown))]
    · rfl
  rw [← hposition, lockIdAt, RootBinding.lockName]
  cases object.kind <;> rfl

theorem readLockId_lockIdAt (h : NamesItself object) {place : MemoryRegion}
    (hfits : FitsOffset (offsetSum object.region place)) :
    readLockId (lockIdAt object place) = some (object.atOffset (offsetSum object.region place)) := by
  rw [lockIdAt_eq hfits]
  unfold NamesItself at h
  unfold RootBinding.atOffset RootBinding.lockName
  cases hkind : object.kind with
  | Argument =>
      rw [hkind] at h
      exact readLockId_parameter h hfits
  | Global =>
      rw [hkind] at h
      exact readLockId_symbol h hfits

theorem lockIdAt_atOffset {first second : MemoryRegion}
    (hfits : FitsOffset (offsetSum object.region (placeAt (offsetSum first second)))) :
    lockIdAt (object.atOffset (offsetSum object.region first)) second =
      lockIdAt object (placeAt (offsetSum first second)) := by
  have hregion : (object.atOffset (offsetSum object.region first)).region =
      placeAt (offsetSum object.region first) := by
    unfold RootBinding.atOffset
    cases object.kind <;> rfl
  have hsum : offsetSum (object.atOffset (offsetSum object.region first)).region second =
      offsetSum object.region (placeAt (offsetSum first second)) := by
    rw [hregion, offsetSum_assoc]
  rw [lockIdAt_eq (hsum ▸ hfits), lockIdAt_eq hfits, hsum]
  unfold RootBinding.atOffset RootBinding.lockName
  cases object.kind <;> rfl

end Places

-- Through a chain of calls a lock keeps its object, and the places the calls hand on add up.
theorem lock_ids_decode (object : RootBinding) (hobject : NamesItself object) :
    (∀ place, FitsOffset (offsetSum object.region place) →
      readLockId (lockIdAt object place) =
        some (object.atOffset (offsetSum object.region place))) ∧
    (∀ first second, FitsOffset (offsetSum object.region first) →
      FitsOffset (offsetSum object.region (placeAt (offsetSum first second))) →
        (readLockId (lockIdAt object first)).map (lockIdAt · second) =
          some (lockIdAt object (placeAt (offsetSum first second)))) ∧
    ∀ (call : LockOrderCall) (index : Nat) (first second : MemoryRegion), index < 2 ^ 32 →
      call.passed index = some (lockIdAt object first) → FitsOffset second.knownOffset →
      FitsOffset (offsetSum object.region first) →
      FitsOffset (offsetSum object.region (placeAt (offsetSum first second))) →
        lockAtCall (lockIdAt (RootBinding.argument index {}) second) call =
          some (lockIdAt object (placeAt (offsetSum first second))) := by
  refine ⟨?_, ?_, ?_⟩
  · intro place hfits
    exact readLockId_lockIdAt hobject hfits
  · intro first second hfirst hboth
    rw [readLockId_lockIdAt hobject hfirst, Option.map_some, lockIdAt_atOffset hboth]
  · intro call index first second hindex hpassed hsecond hfirst hboth
    have hsum : offsetSum (RootBinding.argument index {}).region second = second.knownOffset := by
      unfold offsetSum MemoryRegion.knownOffset
      cases second.hasKnownOffset <;> simp [RootBinding.argument]
    have hname : lockIdAt (RootBinding.argument index {}) second =
        kParameterLockPrefix ++ toString index ++ offsetText second.knownOffset := by
      rw [lockIdAt_eq (hsum ▸ hsecond), hsum]
      rfl
    have hplace := parameterLockPlace_parameter hindex
      fun value hvalue => int64_of_fits (hsecond value hvalue)
    have hroot := (readLockId_eq_some.mp (readLockId_lockIdAt hobject hfirst)).2
    have hsame : lockIdAt (object.atOffset (offsetSum object.region first))
        (placeAt second.knownOffset) = lockIdAt object (placeAt (offsetSum first second)) := by
      have hoffset : offsetSum first (placeAt second.knownOffset) = offsetSum first second := by
        rw [offsetSum, knownOffset_placeAt, offsetSum]
      rw [← hoffset] at hboth ⊢
      exact lockIdAt_atOffset hboth
    rw [lockAtCall, hname, hplace]
    dsimp only
    rw [hpassed, Option.map_some, hroot, hsame]

theorem lock_ids_decode_plus_in_symbol :
    readLockId (lockIdAt (RootBinding.global "operator+" { byteOffset := 8 }) { byteOffset := -24 }) =
        some (RootBinding.global "operator+" { byteOffset := -16 }) ∧
      lockAtCall (lockIdAt (RootBinding.argument 10 {}) { hasKnownOffset := false })
          { callerFunctionId := "caller", passed := fun _ => some "operator++8" } =
        some "operator+[*]" := by
  have hself : readLockId "operator+" = some (RootBinding.global "operator+" {}) := by
    decide +kernel
  have hdecode := lock_ids_decode (RootBinding.global "operator+" { byteOffset := 8 }) hself
  have hpassed : lockIdAt (RootBinding.global "operator+" { byteOffset := 8 }) {} = "operator++8" := by
    decide +kernel
  refine ⟨hdecode.1 { byteOffset := -24 } (by decide), ?_⟩
  exact hdecode.2.2 { callerFunctionId := "caller", passed := fun _ => some "operator++8" } 10 {}
    { hasKnownOffset := false } (by decide) (by rw [hpassed]) (by decide) (by decide) (by decide)

end ConcurrencyAnalyzer
