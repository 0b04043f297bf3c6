import Mathlib.Data.List.Nodup
import Mathlib.Data.List.Infix

namespace ConcurrencyAnalyzer.Library.OptionStream

-- A list of tokens read from left to right, some of which take the token after them as a value.
variable {α : Type*} (takes : α → Bool)

def readToken (waiting : Option α) (token : α) : Option α :=
  match waiting with
  | some _ => none
  | none => if takes token then some token else none

-- The option that is left without a value at the end.
def awaiting (tokens : List α) : Option α := tokens.foldl (readToken takes) none

-- Each option that takes a value, with its value.
def pairs : List α → List (α × α)
  | token :: next :: rest =>
      if takes token then (token, next) :: pairs rest else pairs (next :: rest)
  | _ => []

variable {takes}

@[simp] theorem awaiting_nil : awaiting takes ([] : List α) = none := rfl

theorem awaiting_append_singleton (tokens : List α) (token : α) :
    awaiting takes (tokens ++ [token]) = readToken takes (awaiting takes tokens) token := by
  rw [awaiting, List.foldl_append]
  rfl

theorem awaiting_append {tokens : List α} (h : awaiting takes tokens = none) (rest : List α) :
    awaiting takes (tokens ++ rest) = awaiting takes rest := by
  rw [awaiting, List.foldl_append]
  exact congrArg (fun waiting => rest.foldl (readToken takes) waiting) h

theorem awaiting_cons_of_not {token : α} (h : takes token = false) (rest : List α) :
    awaiting takes (token :: rest) = awaiting takes rest := by
  simp [awaiting, readToken, h]

theorem awaiting_cons_cons {token : α} (h : takes token = true) (value : α) (rest : List α) :
    awaiting takes (token :: value :: rest) = awaiting takes rest := by
  simp [awaiting, readToken, h]

theorem awaiting_singleton {token : α} (h : takes token = true) :
    awaiting takes [token] = some token := by
  simp [awaiting, readToken, h]

theorem mem_of_awaiting {tokens : List α} {token : α} (h : awaiting takes tokens = some token) :
    token ∈ tokens := by
  induction tokens using List.reverseRecOn generalizing token with
  | nil => simp at h
  | append_singleton tokens last ih =>
      rw [awaiting_append_singleton] at h
      cases hwaiting : awaiting takes tokens with
      | some other => simp [readToken, hwaiting] at h
      | none =>
          rw [hwaiting, readToken] at h
          by_cases htakes : takes last
          · rw [if_pos htakes, Option.some.injEq] at h
            simp [h]
          · simp [htakes] at h

theorem pairs_adjacent {tokens : List α} {option value : α}
    (h : (option, value) ∈ pairs takes tokens) :
    takes option = true ∧ [option, value] <:+: tokens := by
  fun_induction pairs takes tokens with
  | case1 token next rest htakes ih =>
      rcases List.mem_cons.mp h with heq | h
      · obtain ⟨rfl, rfl⟩ := Prod.mk.injEq .. ▸ heq
        exact ⟨htakes, [], rest, rfl⟩
      · obtain ⟨hoption, hadjacent⟩ := ih h
        exact ⟨hoption, hadjacent.trans (List.suffix_append [token, next] rest).isInfix⟩
  | case2 token next rest htakes ih =>
      obtain ⟨hoption, hadjacent⟩ := ih h
      exact ⟨hoption, hadjacent.trans (List.suffix_cons token (next :: rest)).isInfix⟩
  | case3 => simp at h

-- Neighbours that both stay are still neighbours.
theorem infix_of_sublist {kept tokens : List α} {first second : α}
    (hadjacent : [first, second] <:+: tokens) (hkept : kept.Sublist tokens) (hnodup : tokens.Nodup)
    (hfirst : first ∈ kept) (hsecond : second ∈ kept) : [first, second] <:+: kept := by
  obtain ⟨front, back, rfl⟩ := hadjacent
  rw [List.append_assoc] at hkept hnodup
  obtain ⟨keptFront, keptRest, rfl, hfront, hrest⟩ := List.sublist_append_iff.mp hkept
  obtain ⟨-, hnodupRest, hdisjoint⟩ := List.nodup_append.mp hnodup
  have hin : ∀ token ∈ [first, second] ++ back, token ∈ keptFront ++ keptRest →
      token ∈ keptRest := by
    intro token htoken hmem
    rcases List.mem_append.mp hmem with h | h
    · exact absurd rfl (hdisjoint token (hfront.subset h) token htoken)
    · exact h
  have hfirst := hin first (by simp) hfirst
  have hsecond := hin second (by simp) hsecond
  rw [List.cons_append, List.cons_append, List.nil_append] at hrest hnodupRest
  obtain ⟨hfirstNotin, hnodupRest⟩ := List.nodup_cons.mp hnodupRest
  cases hrest with
  | cons _ h => exact absurd (h.subset hfirst) hfirstNotin
  | @cons_cons afterFirst _ _ h =>
      have hsecond : second ∈ afterFirst := by
        rcases List.mem_cons.mp hsecond with rfl | h
        · exact absurd List.mem_cons_self hfirstNotin
        · exact h
      cases h with
      | cons _ h => exact absurd (h.subset hsecond) (List.nodup_cons.mp hnodupRest).1
      | @cons_cons afterSecond _ _ _ => exact ⟨keptFront, afterSecond, by simp⟩

end ConcurrencyAnalyzer.Library.OptionStream
