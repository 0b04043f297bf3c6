import ConcurrencyAnalyzer.Facts
import ConcurrencyAnalyzer.Library.DecimalText
import Mathlib.Algebra.Group.Int.Defs

namespace ConcurrencyAnalyzer

open Library

inductive RootBindingKind where
  | Global
  | Argument
  deriving DecidableEq, Repr

-- `offset + scale * parameter`, or the constant `offset` without a parameter.
structure LinearIndex where
  parameter : Option Nat := none
  scale : Int := 0
  offset : Int := 0
  widened : Bool := false
  deriving DecidableEq, Repr

structure RootBinding where
  kind : RootBindingKind := .Global
  symbol : String := ""
  argumentIndex : Nat := 0
  region : MemoryRegion := {}
  designated : MemoryRegion := {}
  index : Option LinearIndex := none
  deriving DecidableEq, Repr

def RootBinding.global (symbol : String) (region : MemoryRegion) : RootBinding where
  kind := .Global
  symbol := symbol
  region := region

def RootBinding.argument (index : Nat) (region : MemoryRegion) : RootBinding where
  kind := .Argument
  argumentIndex := index
  region := region

def kParameterLockPrefix : String := "%arg"

def kLocksHeldByCaller : String := "%caller"

structure ParameterLockPlace where
  argumentIndex : Nat := 0
  place : MemoryRegion := {}
  deriving DecidableEq, Repr

def decimalValue (digits : List Char) : Nat :=
  digits.foldl (fun value digit => 10 * value + (digit.toNat - '0'.toNat)) 0

-- What `std::isspace` takes in the default locale.
def isCSpace (c : Char) : Bool := c = ' ' || (9 ≤ c.toNat && c.toNat ≤ 13)

-- The signed number a text starts with, past blanks. Nothing where the source throws: no digits, or a
-- number past 64 bits, neither of which a lock id made by `lockIdAt` has.
def stoll (text : List Char) : Option Int :=
  let (negative, rest) := match text.dropWhile isCSpace with
    | '-' :: rest => (true, rest)
    | '+' :: rest => (false, rest)
    | rest => (false, rest)
  let digits := rest.takeWhile Char.isDigit
  let value : Int := if negative then -(decimalValue digits : Int) else decimalValue digits
  if digits.isEmpty || value < -2 ^ 63 || 2 ^ 63 ≤ value then none else some value

-- Nothing also where the source throws on an index past 64 bits.
def parameterLockPlace (lockId : String) : Option ParameterLockPlace :=
  let text := lockId.toList
  let start := kParameterLockPrefix.toList
  if !start.isPrefixOf text then none
  else
    let rest := text.drop start.length
    let index := rest.takeWhile Char.isDigit
    let suffix := rest.dropWhile Char.isDigit
    if index.isEmpty || 2 ^ 64 ≤ decimalValue index then none
    else
      let argumentIndex := decimalValue index % 2 ^ 32
      if suffix = "[*]".toList then some ⟨argumentIndex, { hasKnownOffset := false }⟩
      else
        match suffix with
        | [] => some ⟨argumentIndex, {}⟩
        | '+' :: offset =>
            (stoll offset).map fun byteOffset => ⟨argumentIndex, { byteOffset := byteOffset }⟩
        | _ => none

def lockIdAt (object : RootBinding) (place : MemoryRegion) : String :=
  let position : MemoryRegion :=
    { hasKnownOffset := object.region.hasKnownOffset && place.hasKnownOffset
      byteOffset := int64 (object.region.byteOffset + place.byteOffset) }
  match object.kind with
  | .Argument => kParameterLockPrefix ++ toString object.argumentIndex ++ position.suffix
  | .Global => object.symbol ++ position.suffix

-- The offset a whole text spells, as `std::from_chars` reads it: no plus sign, and nothing after.
def wholeOffset (text : List Char) : Option Int :=
  let digits := match text with
    | '-' :: rest => rest
    | rest => rest
  if digits.all Char.isDigit && text.head? ≠ some '+' then stoll text else none

-- The text before the last plus sign and the text after it.
def splitAtLastPlus (text : List Char) : Option (List Char × List Char) :=
  let after := text.reverse.takeWhile (· ≠ '+')
  match text.reverse.dropWhile (· ≠ '+') with
  | [] => none
  | _ :: before => some (before.reverse, after.reverse)

def lockIdRoot (lockId : String) : RootBinding :=
  match parameterLockPlace lockId with
  | some place => RootBinding.argument place.argumentIndex place.place
  | none =>
      let text := lockId.toList
      if "[*]".toList.isSuffixOf text then
        RootBinding.global (String.ofList (text.take (text.length - 3))) { hasKnownOffset := false }
      else
        match splitAtLastPlus text with
        | none => RootBinding.global lockId {}
        | some (name, offset) =>
            match wholeOffset offset with
            | none => RootBinding.global lockId {}
            | some byteOffset => RootBinding.global (String.ofList name) { byteOffset := byteOffset }

-- A lock only a call site can name.
def namesCallerFrame (lockId : String) : Bool :=
  lockId = kLocksHeldByCaller || (parameterLockPlace lockId).isSome

section Printing

theorem decimalValue_toDigits (n : Nat) : decimalValue (Nat.toDigits 10 n) = n :=
  Nat.ofDigitChars_ten_toDigits

-- What `suffix` prints of a place whose offset is `none` where it is unknown.
def offsetText : Option Int → String
  | none => "[*]"
  | some offset => if offset = 0 then "" else "+" ++ toString offset

def placeAt : Option Int → MemoryRegion
  | none => { hasKnownOffset := false }
  | some offset => { byteOffset := offset }

theorem dropWhile_isCSpace {text : List Char} (h : ∀ first ∈ text.head?, isCSpace first = false) :
    text.dropWhile isCSpace = text := by
  cases text with
  | nil => rfl
  | cons first rest => rw [List.dropWhile_cons, h first rfl, if_neg (by decide)]

theorem isCSpace_of_isDigit {c : Char} (h : c.isDigit = true) : isCSpace c = false := by
  have hdigit : 48 ≤ c.toNat := by
    unfold Char.isDigit at h
    simp only [Bool.and_eq_true, decide_eq_true_eq] at h
    exact h.1
  have hspace : c ≠ ' ' := by
    rintro rfl
    exact absurd hdigit (by decide)
  have hlow : ¬c.toNat ≤ 13 := by omega
  simp [isCSpace, hspace, hlow]

theorem stoll_digits {value : Nat} (hvalue : value < 2 ^ 63) :
    stoll (Nat.toDigits 10 value) = some (value : Int) := by
  have hblank : (Nat.toDigits 10 value).dropWhile isCSpace = Nat.toDigits 10 value :=
    dropWhile_isCSpace fun first hfirst =>
      isCSpace_of_isDigit (isDigit_of_mem_toDigits (List.mem_of_mem_head? hfirst))
  have hsign : (match Nat.toDigits 10 value with
      | '-' :: rest => (true, rest)
      | '+' :: rest => (false, rest)
      | rest => (false, rest)) = (false, Nat.toDigits 10 value) := by
    have hdigits : ∀ c ∈ Nat.toDigits 10 value, c.isDigit = true := fun _ => isDigit_of_mem_toDigits
    split
    · rename_i htext
      cases hdigits '-' (htext ▸ List.mem_cons_self ..)
    · rename_i htext
      cases hdigits '+' (htext ▸ List.mem_cons_self ..)
    · rfl
  unfold stoll
  rw [hblank, hsign]
  simp only [takeWhile_toDigits, isEmpty_toDigits, decimalValue_toDigits, Bool.false_or,
    Bool.false_eq_true, if_false]
  rw [if_neg]
  simp only [Bool.or_eq_true, decide_eq_true_eq]
  omega

theorem stoll_negated {value : Nat} (hvalue : value ≤ 2 ^ 63) :
    stoll ('-' :: Nat.toDigits 10 value) = some (-(value : Int)) := by
  have hblank : ('-' :: Nat.toDigits 10 value).dropWhile isCSpace = '-' :: Nat.toDigits 10 value :=
    dropWhile_isCSpace fun first hfirst => by
      obtain rfl := Option.some.inj hfirst
      decide
  simp only [stoll, hblank, takeWhile_toDigits, isEmpty_toDigits, decimalValue_toDigits, Bool.false_or,
    if_true]
  rw [if_neg]
  simp only [Bool.or_eq_true, decide_eq_true_eq]
  omega

theorem stoll_toString {value : Int} (hlow : -2 ^ 63 ≤ value) (hhigh : value < 2 ^ 63) :
    stoll (toString value).toList = some value := by
  rw [toList_intText]
  by_cases hnegative : value < 0
  · rw [if_pos hnegative, stoll_negated (by omega), Option.some_inj]
    omega
  · rw [if_neg hnegative, stoll_digits (by omega), Option.some_inj]
    omega

theorem int64_range (value : Int) : -2 ^ 63 ≤ int64 value ∧ int64 value < 2 ^ 63 := by
  have hlow := Int.le_bmod (x := value) (m := 2 ^ 64) (by decide)
  have hhigh := Int.bmod_lt (x := value) (m := 2 ^ 64) (by decide)
  unfold int64
  omega

-- The offset of a place, where it is known.
def MemoryRegion.knownOffset (region : MemoryRegion) : Option Int :=
  if region.hasKnownOffset then some region.byteOffset else none

theorem suffix_eq {region : MemoryRegion} (howner : region.elementOwner = .None) :
    region.suffix = offsetText region.knownOffset := by
  unfold MemoryRegion.suffix MemoryRegion.knownOffset
  rw [howner]
  split <;> rfl

-- No name of storage has a character that a lock id gives a meaning of its own.
def PlainName (name : String) : Prop :=
  ∀ c ∈ name.toList, c ≠ '+' ∧ c ≠ '[' ∧ c ≠ '%'

theorem offsetText_some_toList (offset : Int) :
    (offsetText (some offset)).toList = [] ∧ offset = 0 ∨
      (offsetText (some offset)).toList = '+' :: (toString offset).toList ∧ offset ≠ 0 := by
  unfold offsetText
  by_cases hzero : offset = 0
  · left
    simp [hzero]
  · right
    simp [hzero]

theorem offsetText_head (offset : Option Int) :
    ∀ first ∈ (offsetText offset).toList.head?, first = '+' ∨ first = '[' := by
  intro first hfirst
  cases offset with
  | none =>
      cases hfirst
      exact .inr rfl
  | some offset =>
      rcases offsetText_some_toList offset with ⟨hempty, -⟩ | ⟨hsome, -⟩
      · rw [hempty] at hfirst
        cases hfirst
      · rw [hsome] at hfirst
        cases hfirst
        exact .inl rfl

theorem takeWhile_plain {name : String} (h : PlainName name) {rest : List Char}
    (hrest : ∀ first ∈ rest.head?, first = '+') :
    (name.toList ++ rest).takeWhile (· ≠ '+') = name.toList := by
  rw [List.takeWhile_append_of_pos fun c hc => decide_eq_true (h c hc).1]
  cases rest with
  | nil => simp
  | cons first rest =>
      rw [hrest first rfl]
      simp

theorem lockName_injective {first second : String} (hfirst : PlainName first)
    (hsecond : PlainName second) {offset other : Int} (hoffset : int64 offset = offset)
    (hother : int64 other = other)
    (h : first ++ offsetText (some offset) = second ++ offsetText (some other)) :
    first = second ∧ offset = other := by
  have hhead : ∀ value : Int, ∀ c ∈ (offsetText (some value)).toList.head?, c = '+' := by
    intro value c hc
    rcases offsetText_some_toList value with ⟨htext, -⟩ | ⟨htext, -⟩
    · rw [htext] at hc
      cases hc
    · rw [htext] at hc
      exact (Option.some.inj hc).symm
  have htext := congrArg String.toList h
  rw [String.toList_append, String.toList_append] at htext
  have hname : first.toList = second.toList := by
    rw [← takeWhile_plain hfirst (hhead offset), htext, takeWhile_plain hsecond (hhead other)]
  refine ⟨String.toList_inj.mp hname, ?_⟩
  rw [hname, List.append_cancel_left_eq] at htext
  have hread : ∀ value : Int, int64 value = value → stoll (toString value).toList = some value := by
    intro value hvalue
    obtain ⟨hlow, hhigh⟩ := int64_range value
    rw [hvalue] at hlow hhigh
    exact stoll_toString hlow hhigh
  rcases offsetText_some_toList offset with ⟨hempty, hzero⟩ | ⟨hsome, hne⟩
  · rcases offsetText_some_toList other with ⟨-, hzero'⟩ | ⟨hsome', -⟩
    · rw [hzero, hzero']
    · rw [hempty, hsome'] at htext
      cases htext
  · rcases offsetText_some_toList other with ⟨hempty', -⟩ | ⟨hsome', -⟩
    · rw [hsome, hempty'] at htext
      cases htext
    · rw [hsome, hsome', List.cons.injEq] at htext
      have hsame := hread offset hoffset
      rw [htext.2, hread other hother] at hsame
      exact (Option.some.inj hsame).symm

theorem parameterLockPlace_storage {symbol : String} (h : PlainName symbol) (offset : Option Int) :
    parameterLockPlace (symbol ++ offsetText offset) = none := by
  have hstart : kParameterLockPrefix.toList.isPrefixOf (symbol ++ offsetText offset).toList = false := by
    rw [String.toList_append]
    cases hsymbol : symbol.toList with
    | nil =>
        cases offset with
        | none => rfl
        | some offset =>
            rcases offsetText_some_toList offset with ⟨htext, -⟩ | ⟨htext, -⟩
            · rw [htext]
              rfl
            · rw [htext]
              rfl
    | cons first rest =>
        have hfirst := (h first (hsymbol ▸ List.mem_cons_self ..)).2.2
        have hne : ('%' == first) = false := beq_false_of_ne (Ne.symm hfirst)
        change (('%' == first) && _) = false
        rw [hne, Bool.false_and]
  unfold parameterLockPlace
  dsimp only
  rw [hstart]
  rfl

theorem parameterLockPlace_parameter {index : Nat} (hindex : index < 2 ^ 32) {offset : Option Int}
    (hoffset : ∀ value ∈ offset, int64 value = value) :
    parameterLockPlace (kParameterLockPrefix ++ toString index ++ offsetText offset) =
      some ⟨index, placeAt offset⟩ := by
  have htext : (kParameterLockPrefix ++ toString index ++ offsetText offset).toList =
      kParameterLockPrefix.toList ++ (Nat.toDigits 10 index ++ (offsetText offset).toList) := by
    rw [String.toList_append, String.toList_append, List.append_assoc]
    congr 2
    exact Nat.toList_repr
  have hrest : ∀ first ∈ (offsetText offset).toList.head?, first.isDigit = false := by
    intro first hfirst
    rcases offsetText_head offset first hfirst with rfl | rfl
    · rfl
    · rfl
  obtain ⟨htake, hdrop⟩ := takeWhile_toDigits_append index hrest
  have hsmall : ¬2 ^ 64 ≤ index := by omega
  have hstart : kParameterLockPrefix.toList.isPrefixOf
      (kParameterLockPrefix.toList ++ (Nat.toDigits 10 index ++ (offsetText offset).toList)) = true :=
    List.isPrefixOf_iff_prefix.mpr (List.prefix_append _ _)
  unfold parameterLockPlace
  simp only [htext, hstart, List.drop_left, htake, hdrop, isEmpty_toDigits, decimalValue_toDigits,
    hsmall, Nat.mod_eq_of_lt hindex]
  cases offset with
  | none => rfl
  | some offset =>
      rcases offsetText_some_toList offset with ⟨hempty, rfl⟩ | ⟨hsome, hne⟩
      · rw [hempty]
        rfl
      · obtain ⟨hlow, hhigh⟩ := int64_range offset
        rw [hoffset offset rfl] at hlow hhigh
        have hbrackets : '+' :: (toString offset).toList ≠ "[*]".toList := by
          intro heq
          cases heq
        rw [hsome]
        simp only [Bool.not_true, Bool.false_eq_true, if_false, hbrackets, Bool.false_or,
          decide_false, stoll_toString hlow hhigh, placeAt]
        rfl

end Printing

end ConcurrencyAnalyzer
