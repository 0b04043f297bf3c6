import Mathlib.Data.String.Basic

namespace ConcurrencyAnalyzer.Library

section Digits

theorem isDigit_of_mem_toDigits {n : Nat} {c : Char} (h : c ∈ Nat.toDigits 10 n) :
    c.isDigit = true :=
  Nat.isDigit_of_mem_toDigits (b := 10) (by decide) (by decide) h

theorem toDigits_injective {number other : Nat}
    (h : Nat.toDigits 10 number = Nat.toDigits 10 other) : number = other := by
  have hread := congrArg (fun digits => Nat.ofDigitChars 10 digits 0) h
  rwa [Nat.ofDigitChars_ten_toDigits, Nat.ofDigitChars_ten_toDigits] at hread

theorem isEmpty_toDigits (number : Nat) : (Nat.toDigits 10 number).isEmpty = false := by
  simp [List.isEmpty_eq_false_iff, Nat.toDigits_ne_nil]

-- A number ends where the first character that is no digit stands.
theorem takeWhile_digits {digits rest : List Char} (hdigits : ∀ c ∈ digits, c.isDigit = true)
    (hrest : ∀ first ∈ rest.head?, first.isDigit = false) :
    (digits ++ rest).takeWhile Char.isDigit = digits ∧
      (digits ++ rest).dropWhile Char.isDigit = rest := by
  induction digits with
  | nil =>
      cases rest with
      | nil => exact ⟨rfl, rfl⟩
      | cons first rest =>
          have := hrest first rfl
          simp [this]
  | cons digit digits ih =>
      have hfirst := hdigits digit (List.mem_cons_self ..)
      obtain ⟨htake, hdrop⟩ := ih fun c hc => hdigits c (List.mem_cons_of_mem _ hc)
      simp [hfirst, htake, hdrop]

theorem takeWhile_toDigits_append (number : Nat) {rest : List Char}
    (hrest : ∀ first ∈ rest.head?, first.isDigit = false) :
    (Nat.toDigits 10 number ++ rest).takeWhile Char.isDigit = Nat.toDigits 10 number ∧
      (Nat.toDigits 10 number ++ rest).dropWhile Char.isDigit = rest := by
  refine takeWhile_digits ?_ hrest
  intro c hc
  exact isDigit_of_mem_toDigits hc

theorem takeWhile_toDigits (number : Nat) :
    (Nat.toDigits 10 number).takeWhile Char.isDigit = Nat.toDigits 10 number := by
  have htake := (@takeWhile_toDigits_append number [] (by simp)).1
  rwa [List.append_nil] at htake

end Digits

section Naturals

theorem toList_natText (number : Nat) : (toString number).toList = Nat.toDigits 10 number :=
  Nat.toList_repr

theorem isDigit_of_mem_natText {number : Nat} {c : Char} (h : c ∈ (toString number).toList) :
    c.isDigit = true := by
  rw [toList_natText] at h
  exact isDigit_of_mem_toDigits h

theorem notMem_natText {c : Char} (hdigit : c.isDigit = false) (number : Nat) :
    c ∉ (toString number).toList := by
  intro hmem
  rw [isDigit_of_mem_natText hmem] at hdigit
  cases hdigit

theorem natText_injective {number other : Nat}
    (h : (toString number).toList = (toString other).toList) : number = other := by
  rw [toList_natText, toList_natText] at h
  exact toDigits_injective h

end Naturals

section Integers

theorem toList_intText (number : Int) :
    (toString number).toList =
      if number < 0 then '-' :: Nat.toDigits 10 number.natAbs
      else Nat.toDigits 10 number.natAbs := by
  cases number with
  | ofNat number => exact toList_natText number
  | negSucc number =>
      change ("-" ++ Nat.repr (number + 1)).toList = _
      rw [String.toList_append, Nat.toList_repr, if_pos (Int.negSucc_lt_zero number)]
      rfl

theorem notMem_intText {c : Char} (hdigit : c.isDigit = false) (hdash : c ≠ '-') (number : Int) :
    c ∉ (toString number).toList := by
  have hdigits : c ∉ Nat.toDigits 10 number.natAbs := by
    intro hmem
    rw [isDigit_of_mem_toDigits hmem] at hdigit
    cases hdigit
  rw [toList_intText]
  split
  · rw [List.mem_cons, not_or]
    exact ⟨hdash, hdigits⟩
  · exact hdigits

theorem intText_injective {number other : Int}
    (h : (toString number).toList = (toString other).toList) : number = other := by
  have hminus (number : Nat) (rest : List Char) : Nat.toDigits 10 number ≠ '-' :: rest := by
    intro heq
    have hdash : '-' ∈ Nat.toDigits 10 number := heq ▸ List.mem_cons_self ..
    exact absurd (isDigit_of_mem_toDigits hdash) (by decide)
  rw [toList_intText, toList_intText] at h
  by_cases hnegative : number < 0 <;> by_cases hnegative' : other < 0
  · rw [if_pos hnegative, if_pos hnegative', List.cons.injEq] at h
    have := toDigits_injective h.2
    omega
  · rw [if_pos hnegative, if_neg hnegative'] at h
    exact absurd h.symm (hminus _ _)
  · rw [if_neg hnegative, if_pos hnegative'] at h
    exact absurd h (hminus _ _)
  · rw [if_neg hnegative, if_neg hnegative'] at h
    have := toDigits_injective h
    omega

end Integers

end ConcurrencyAnalyzer.Library
