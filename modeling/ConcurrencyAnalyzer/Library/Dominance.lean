import Mathlib.Data.List.Chain

namespace ConcurrencyAnalyzer.Library.Dominance

variable {α : Type*} (step : α → α → Prop) (entry : α)

-- A way from the entry that ends in an element.
structure Run (before : List α) (last : α) : Prop where
  chain : (before ++ [last]).IsChain step
  head : (before ++ [last]).head? = some entry

-- No way from the entry to one element goes past the other.
def Dominates (dominator element : α) : Prop :=
  ∀ before, Run step entry before element → dominator ∈ before ++ [element]

variable {step entry} {first second third : α} {before after : List α}

theorem Run.front (h : Run step entry (before ++ first :: after) second) : Run step entry before first := by
  obtain ⟨hchain, hhead⟩ := h
  have hsplit : before ++ first :: after ++ [second] = (before ++ [first]) ++ (after ++ [second]) := by simp
  rw [hsplit] at hchain hhead
  refine ⟨(List.isChain_append.mp hchain).1, ?_⟩
  rwa [List.head?_append_of_ne_nil _ (by simp)] at hhead

theorem Run.back (h : Run step entry (before ++ first :: after) second) :
    (first :: (after ++ [second])).IsChain step := by
  have hchain := h.chain
  rw [List.append_assoc, List.cons_append] at hchain
  exact (List.isChain_append.mp hchain).2.1

theorem Run.join (h : Run step entry before first) (hafter : (first :: (after ++ [second])).IsChain step) :
    Run step entry (before ++ first :: after) second := by
  obtain ⟨hchain, hhead⟩ := h
  have hsplit : before ++ first :: after ++ [second] = (before ++ [first]) ++ (after ++ [second]) := by simp
  refine ⟨?_, ?_⟩
  · rw [hsplit]
    refine List.isChain_append.mpr ⟨hchain, (List.isChain_cons.mp hafter).2, fun last hlast next hnext => ?_⟩
    rw [List.getLast?_append, List.getLast?_singleton, Option.some_or, Option.mem_some_iff] at hlast
    subst hlast
    exact (List.isChain_cons.mp hafter).1 next hnext
  · rw [hsplit, List.head?_append_of_ne_nil _ (by simp)]
    exact hhead

-- A dominator is come to before what it dominates.
theorem Dominates.exists_before (hdominates : Dominates step entry first second) (hne : first ≠ second)
    (h : Run step entry before second) :
    ∃ front, Run step entry front first ∧ second ∉ front ++ [first] := by
  obtain ⟨way, rest, hsplit, hfresh⟩ :=
    List.eq_append_cons_of_mem (show second ∈ before ++ [second] by simp)
  have hway : Run step entry way second := by
    refine ⟨?_, ?_⟩
    · have hchain := h.chain
      rw [hsplit, show way ++ second :: rest = (way ++ [second]) ++ rest by simp] at hchain
      exact (List.isChain_append.mp hchain).1
    · have hhead := h.head
      rw [hsplit, show way ++ second :: rest = (way ++ [second]) ++ rest by simp,
        List.head?_append_of_ne_nil _ (by simp)] at hhead
      exact hhead
  have hmem : first ∈ way :=
    (List.mem_append.mp (hdominates way hway)).resolve_right fun h => hne (List.mem_singleton.mp h)
  obtain ⟨front, back, rfl⟩ := List.append_of_mem hmem
  refine ⟨front, hway.front, fun hsecond => hfresh ?_⟩
  rcases List.mem_append.mp hsecond with hfront | hlast
  · exact List.mem_append_left _ hfront
  · exact absurd (List.mem_singleton.mp hlast).symm hne

theorem Dominates.trans (hfirst : Dominates step entry first second)
    (hsecond : Dominates step entry second third) : Dominates step entry first third := by
  intro before h
  by_cases hsame : second = third
  · subst hsame
    exact hfirst before h
  · have hmem : second ∈ before := (List.mem_append.mp (hsecond before h)).resolve_right
      fun hlast => hsame (List.mem_singleton.mp hlast)
    obtain ⟨front, back, rfl⟩ := List.append_of_mem hmem
    rcases List.mem_append.mp (hfirst front h.front) with hfront | hlast
    · exact List.mem_append_left _ (List.mem_append_left _ hfront)
    · rw [List.mem_singleton.mp hlast]
      simp

-- Between two elements that dominate each other in a row there is no way past the middle one.
theorem Dominates.between (hfirst : Dominates step entry first second)
    (hsecond : Dominates step entry second third) (hne : first ≠ second) (h : Run step entry before second)
    (hway : (first :: (after ++ [third])).IsChain step) : second ∈ after ++ [third] := by
  obtain ⟨front, hfront, hfresh⟩ := hfirst.exists_before hne h
  have hmem := hsecond _ (hfront.join hway)
  rw [show front ++ first :: after ++ [third] = (front ++ [first]) ++ (after ++ [third]) by simp] at hmem
  exact (List.mem_append.mp hmem).resolve_left hfresh

-- What dominates a first element or is dominated by a last one is not come to in between, from the last
-- time at the first to the next time at the last, where a middle one is dominated by the first and
-- dominates the last.
theorem Run.not_between {last write : α} {middle rest : List α}
    (h : Run step entry (before ++ first :: middle ++ second :: rest) last)
    (hfirst : Dominates step entry first second) (hsecond : Dominates step entry second last)
    (hwrite : Dominates step entry write first ∨ Dominates step entry last write)
    (hfresh : first ∉ middle) (hmiddle : second ∉ middle) (hrest : second ∉ rest) (hlast : last ∉ rest)
    (hfirstSecond : first ≠ second) (hsecondLast : second ≠ last) (hfirstLast : first ≠ last)
    (hwriteLast : write ≠ last) : write ∉ middle ∧ write ∉ rest := by
  have htoSecond : Run step entry (before ++ first :: middle) second := h.front
  refine ⟨fun hmem => ?_, fun hmem => ?_⟩
  · obtain ⟨front, back, rfl⟩ := List.append_of_mem hmem
    have hsplit : before ++ first :: (front ++ write :: back) = (before ++ first :: front) ++ write :: back := by
      simp
    rw [hsplit] at htoSecond
    rcases hwrite with hwrite | hwrite
    · -- from the write back to the middle element, past the first
      have hne : write ≠ first := fun hsame => hfresh (by simp [hsame])
      have hpassed := hwrite.between hfirst hne htoSecond.front.front htoSecond.back
      rcases List.mem_append.mp hpassed with hback | hend
      · exact hfresh (List.mem_append_right _ (List.mem_cons_of_mem _ hback))
      · exact hfirstSecond (List.mem_singleton.mp hend)
    · -- from the first to the write by the last, and so by the middle element
      have hpassed := (hfirst.trans hsecond).between hwrite hfirstLast h htoSecond.front.back
      have hfront : last ∈ front := (List.mem_append.mp hpassed).resolve_right
        fun hend => hwriteLast (List.mem_singleton.mp hend).symm
      obtain ⟨ahead, behind, rfl⟩ := List.append_of_mem hfront
      have htoLast := htoSecond.front
      rw [show before ++ first :: (ahead ++ last :: behind) =
        (before ++ first :: ahead) ++ last :: behind by simp] at htoLast
      have hway := hfirst.between hsecond hfirstSecond htoSecond htoLast.front.back
      rcases List.mem_append.mp hway with hahead | hend
      · exact hmiddle (by simp [hahead])
      · exact hsecondLast (List.mem_singleton.mp hend)
  · obtain ⟨front, back, rfl⟩ := List.append_of_mem hmem
    rw [show before ++ first :: middle ++ second :: (front ++ write :: back) =
      (before ++ first :: middle ++ second :: front) ++ write :: back by simp] at h
    rcases hwrite with hwrite | hwrite
    · have hne : write ≠ second := fun hsame => hrest (by simp [hsame])
      have hpassed := (hwrite.trans hfirst).between hsecond hne htoSecond h.back
      rcases List.mem_append.mp hpassed with hback | hend
      · exact hrest (by simp [hback])
      · exact hsecondLast (List.mem_singleton.mp hend)
    · have hpassed := hsecond.between hwrite hsecondLast h h.front.back
      rcases List.mem_append.mp hpassed with hfront | hend
      · exact hlast (by simp [hfront])
      · exact hwriteLast (List.mem_singleton.mp hend).symm

end ConcurrencyAnalyzer.Library.Dominance
