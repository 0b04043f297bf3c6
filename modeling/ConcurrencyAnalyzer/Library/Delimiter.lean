import Mathlib.Data.List.Infix

namespace ConcurrencyAnalyzer.Library.Delimiter

variable {α : Type*}

-- A symbol ends a field that does not contain it.
theorem split_single {a : α} {first second rest other : List α} (hf : a ∉ first) (hs : a ∉ second)
    (h : first ++ a :: rest = second ++ a :: other) : first = second ∧ rest = other := by
  induction first generalizing second with
  | nil =>
      cases second with
      | nil => exact ⟨rfl, List.cons.inj h |>.2⟩
      | cons x second => exact absurd (List.cons.inj h).1 fun heq => hs (heq ▸ List.mem_cons_self ..)
  | cons x first ih =>
      cases second with
      | nil => exact absurd (List.cons.inj h).1 fun heq => hf (heq ▸ List.mem_cons_self ..)
      | cons y second =>
          obtain ⟨hhead, htail⟩ := List.cons.inj h
          obtain ⟨hfirst, hrest⟩ := ih (fun hm => hf (List.mem_cons_of_mem _ hm))
            (fun hm => hs (List.mem_cons_of_mem _ hm)) htail
          exact ⟨by rw [hhead, hfirst], hrest⟩

-- The same where it is the last delimiter that is looked for.
theorem split_last {a : α} {first second rest other : List α} (hr : a ∉ rest) (ho : a ∉ other)
    (h : first ++ a :: rest = second ++ a :: other) : first = second ∧ rest = other := by
  have hreverse := congrArg List.reverse h
  simp only [List.reverse_append, List.reverse_cons, List.append_assoc, List.singleton_append]
    at hreverse
  obtain ⟨hrest, hfirst⟩ := split_single (by simpa using hr) (by simpa using ho) hreverse
  exact ⟨List.reverse_injective hfirst, List.reverse_injective hrest⟩

-- A separator of two different symbols ends a field that does not contain it, whatever follows.
theorem split_pair {a b : α} (hab : a ≠ b) {first second rest other : List α}
    (hf : ¬[a, b] <:+: first) (hs : ¬[a, b] <:+: second)
    (h : first ++ a :: b :: rest = second ++ a :: b :: other) :
    first = second ∧ rest = other := by
  induction first generalizing second with
  | nil =>
      match second, hs, h with
      | [], _, h => exact ⟨rfl, by simpa using h⟩
      | [_], _, h => simp only [List.nil_append, List.cons_append, List.cons.injEq] at h
                     exact absurd h.2.1.symm hab
      | x :: y :: tail, hs, h =>
          simp only [List.nil_append, List.cons_append, List.cons.injEq] at h
          obtain ⟨rfl, rfl, _⟩ := h
          exact absurd ⟨[], tail, rfl⟩ hs
  | cons x first ih =>
      match second, hs, h with
      | [], _, h =>
          match first, hf, h with
          | [], _, h =>
              simp only [List.nil_append, List.cons_append, List.cons.injEq] at h
              exact absurd h.2.1 hab
          | y :: tail, hf, h =>
              simp only [List.nil_append, List.cons_append, List.cons.injEq] at h
              obtain ⟨rfl, rfl, _⟩ := h
              exact absurd ⟨[], tail, rfl⟩ hf
      | y :: second, hs, h =>
          simp only [List.cons_append, List.cons.injEq] at h
          obtain ⟨rfl, h⟩ := h
          have hf' : ¬[a, b] <:+: first := fun hi => hf (List.infix_cons hi)
          have hs' : ¬[a, b] <:+: second := fun hi => hs (List.infix_cons hi)
          obtain ⟨rfl, rfl⟩ := ih hf' hs' h
          exact ⟨rfl, rfl⟩

-- A doubled symbol ends a field that does not contain it up to one symbol, which belongs either to
-- the field or to what follows.
theorem split_double {a : α} {first second rest other : List α}
    (hf : ¬[a, a] <:+: first) (hs : ¬[a, a] <:+: second)
    (h : first ++ a :: a :: rest = second ++ a :: a :: other) :
    (first = second ∧ rest = other) ∨ (first = second ++ [a] ∧ other = a :: rest) ∨
      (second = first ++ [a] ∧ rest = a :: other) := by
  induction first generalizing second with
  | nil =>
      match second, hs, h with
      | [], _, h => exact Or.inl ⟨rfl, by simpa using h⟩
      | [_], _, h =>
          simp only [List.nil_append, List.cons_append, List.cons.injEq] at h
          obtain ⟨rfl, _, h⟩ := h
          exact Or.inr (Or.inr ⟨rfl, h⟩)
      | x :: y :: tail, hs, h =>
          simp only [List.nil_append, List.cons_append, List.cons.injEq] at h
          obtain ⟨rfl, rfl, _⟩ := h
          exact absurd ⟨[], tail, rfl⟩ hs
  | cons x first ih =>
      match second, hs, h with
      | [], _, h =>
          match first, hf, h with
          | [], _, h =>
              simp only [List.nil_append, List.cons_append, List.cons.injEq] at h
              obtain ⟨rfl, _, h⟩ := h
              exact Or.inr (Or.inl ⟨rfl, h.symm⟩)
          | y :: tail, hf, h =>
              simp only [List.nil_append, List.cons_append, List.cons.injEq] at h
              obtain ⟨rfl, rfl, _⟩ := h
              exact absurd ⟨[], tail, rfl⟩ hf
      | y :: second, hs, h =>
          simp only [List.cons_append, List.cons.injEq] at h
          obtain ⟨rfl, h⟩ := h
          have hf' : ¬[a, a] <:+: first := fun hi => hf (List.infix_cons hi)
          have hs' : ¬[a, a] <:+: second := fun hi => hs (List.infix_cons hi)
          rcases ih hf' hs' h with ⟨rfl, rfl⟩ | ⟨rfl, rfl⟩ | ⟨rfl, rfl⟩
          · exact Or.inl ⟨rfl, rfl⟩
          · exact Or.inr (Or.inl ⟨rfl, rfl⟩)
          · exact Or.inr (Or.inr ⟨rfl, rfl⟩)

end ConcurrencyAnalyzer.Library.Delimiter
