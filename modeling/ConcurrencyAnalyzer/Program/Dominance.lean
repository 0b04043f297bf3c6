import ConcurrencyAnalyzer.Program.Module

namespace ConcurrencyAnalyzer.Program.Function

variable (function : Function)

-- The successors of a block, less one edge.
def successorsWithout (start finish block : Nat) : List Nat :=
  (function.successors block).filter fun successor => !(block = start && successor = finish)

-- Whether a block is entered only through an edge. Of two edges between the same blocks neither is
-- the only way.
def edgeDominates (start finish block : Nat) : Bool :=
  decide ((function.successors start).count finish ≤ 1) &&
    decide (block ∉ Library.Search.search (function.successorsWithout start finish) (fun _ => true)
      (function.blocks.length + 1) {0} [0])

-- The blocks a path gets to from the entry, where it may take some edges only.
inductive Enters (follows : Nat → Nat → Prop) : Nat → Prop
  | entry : Enters follows 0
  | branch {block successor} : Enters follows block → successor ∈ function.successors block →
      follows block successor → Enters follows successor

variable {function}

theorem Enters.mono {follows wider : Nat → Nat → Prop} {block : Nat}
    (h : function.Enters follows block) (hwider : ∀ start finish, follows start finish →
      wider start finish) : function.Enters wider block := by
  induction h with
  | entry => exact .entry
  | branch _ hsuccessor hfollows ih => exact .branch ih hsuccessor (hwider _ _ hfollows)

-- A path that never takes an edge does not enter a block the edge dominates.
theorem not_enters_of_edgeDominates {follows : Nat → Nat → Prop} {start finish block : Nat}
    (h : function.edgeDominates start finish block = true) (havoids : ¬follows start finish) :
    ¬function.Enters follows block := by
  simp only [edgeDominates, Bool.and_eq_true, decide_eq_true_eq] at h
  obtain ⟨_, hnot⟩ := h
  intro henters
  apply hnot
  clear hnot
  have hbound (element : Nat) : ∀ next ∈ function.successorsWithout start finish element,
      next < function.blocks.length := fun _ hnext => successor_lt (List.mem_of_mem_filter hnext)
  induction henters with
  | entry => exact Library.Search.zero_mem_reached _ _
  | @branch predecessor successor _ hsuccessor hfollows ih =>
      refine Library.Search.next_mem_reached hbound ih ?_
      refine List.mem_filter.mpr ⟨hsuccessor, ?_⟩
      rw [Bool.not_eq_true', ← Bool.not_eq_true]
      intro hedge
      simp only [Bool.and_eq_true, decide_eq_true_eq] at hedge
      exact havoids (hedge.1 ▸ hedge.2 ▸ hfollows)

section Instructions

variable (function)

-- Where paths go on that stop at a block.
def successorsPast (stop block : Nat) : List Nat :=
  if block = stop then [] else function.successors block

-- Whether every path to a block goes through another, or is that one. No path gets to a block that is
-- not reached.
def blockDominates (dominator block : Nat) : Bool :=
  block = dominator || decide (block ∉ Library.Search.search (function.successorsPast dominator)
    (fun _ => true) (function.blocks.length + 1) {0} [0])

-- Whether every path to the end of a block goes past an instruction that is not in it or before its
-- end. An invoke is past only along the edge to where it goes on when its call completes.
def instructionDominates (block index place : Nat) : Bool :=
  match function.unwindDest block index with
  | none => function.blockDominates block place
  | some pad =>
      match (function.successors block).filter (· ≠ pad) with
      | [normal] => function.edgeDominates block normal place
      | _ => false

-- The instructions a path gets to that has not been past one of them. A path that unwinds from an
-- invoke has not been past it.
inductive Avoids (block index : Nat) : Nat → Nat → Prop
  | entry : Avoids block index 0 0
  | next {place position : Nat} {instruction : Instruction} : Avoids block index place position →
      function.instructionAt place position = some instruction →
      (place, position) ≠ (block, index) → Avoids block index place (position + 1)
  | branch {place successor : Nat} {found : Block} :
      Avoids block index place found.instructions.length → function.blocks[place]? = some found →
      successor ∈ found.successors → Avoids block index successor 0
  | unwind {pad : Nat} : Avoids block index block index →
      function.unwindDest block index = some pad → Avoids block index pad 0

variable {function}

-- Such a path does not get past the block of the instruction either, unless it unwinds.
theorem Avoids.before {block index place position : Nat} {found : Block}
    (h : function.Avoids block index place position) (hfound : function.blocks[block]? = some found)
    (hindex : index < found.instructions.length) (hstays : function.unwindDest block index = none) :
    (place = block → position ≤ index) ∧
      place ∈ Library.Search.search (function.successorsPast block) (fun _ => true)
        (function.blocks.length + 1) {0} [0] := by
  have hbound (element : Nat) : ∀ next ∈ function.successorsPast block element,
      next < function.blocks.length := by
    intro next hnext
    unfold successorsPast at hnext
    split at hnext
    · exact absurd hnext List.not_mem_nil
    · exact successor_lt hnext
  induction h with
  | entry =>
      exact ⟨fun _ => Nat.zero_le index, Library.Search.zero_mem_reached _ _⟩
  | next _ _ hne ih =>
      refine ⟨fun hplace => ?_, ih.2⟩
      have hle := ih.1 hplace
      by_contra hlt
      exact hne (Prod.ext hplace (by show _ = _; omega))
  | @branch place successor passed _ hpassed hsuccessor ih =>
      refine ⟨fun _ => Nat.zero_le index, ?_⟩
      have hplace : place ≠ block := by
        intro hplace
        have hle := ih.1 hplace
        rw [hplace, hfound, Option.some.injEq] at hpassed
        subst hpassed
        omega
      refine Library.Search.next_mem_reached hbound ih.2 ?_
      unfold successorsPast successors
      rwa [if_neg hplace, hpassed]
  | unwind _ hunwinds _ => exact absurd (hstays.symm.trans hunwinds) (by simp)

-- A path that does not get past an invoke never takes the edge it goes on along.
theorem Avoids.enters {block index place position pad normal : Nat}
    (h : function.Avoids block index place position) (hpad : function.unwindDest block index = some pad)
    (hnormal : normal ≠ pad) :
    (place = block → position ≤ index) ∧
      function.Enters (fun start finish => ¬(start = block ∧ finish = normal)) place := by
  obtain ⟨found, hfound, hlast, _, hmem⟩ := unwindDest_eq_some hpad
  induction h with
  | entry => exact ⟨fun _ => Nat.zero_le index, .entry⟩
  | next _ _ hne ih =>
      refine ⟨fun hplace => ?_, ih.2⟩
      have hle := ih.1 hplace
      by_contra hlt
      exact hne (Prod.ext hplace (by show _ = _; omega))
  | @branch place successor passed _ hpassed hsuccessor ih =>
      refine ⟨fun _ => Nat.zero_le index, ih.2.branch ?_ ?_⟩
      · unfold successors
        rwa [hpassed]
      · rintro ⟨hplace, _⟩
        have hle := ih.1 hplace
        rw [hplace, hfound, Option.some.injEq] at hpassed
        subst hpassed
        omega
  | @unwind other _ hother ih =>
      rw [hpad, Option.some.injEq] at hother
      subst hother
      refine ⟨fun _ => Nat.zero_le index, ih.2.branch ?_ fun hedge => hnormal hedge.2.symm⟩
      unfold successors
      rwa [hfound]

-- A path to the end of a block has been past the instructions of every block that dominates it.
theorem not_avoids_of_blockDominates {block index place : Nat} {found ending : Block}
    (hfound : function.blocks[block]? = some found) (hindex : index < found.instructions.length)
    (hending : function.blocks[place]? = some ending)
    (hstays : function.unwindDest block index = none)
    (h : function.blockDominates block place = true) :
    ¬function.Avoids block index place ending.instructions.length := by
  intro havoids
  obtain ⟨hbefore, hmem⟩ := havoids.before hfound hindex hstays
  simp only [blockDominates, Bool.or_eq_true, decide_eq_true_eq] at h
  rcases h with rfl | hnot
  · rw [hfound, Option.some.injEq] at hending
    subst hending
    have := hbefore rfl
    omega
  · exact hnot hmem

-- A path to the end of a block has been past every instruction that dominates it.
theorem not_avoids_of_instructionDominates {block index place : Nat} {found ending : Block}
    (hfound : function.blocks[block]? = some found) (hindex : index < found.instructions.length)
    (hending : function.blocks[place]? = some ending)
    (h : function.instructionDominates block index place = true) :
    ¬function.Avoids block index place ending.instructions.length := by
  unfold instructionDominates at h
  split at h
  · rename_i hstays
    exact not_avoids_of_blockDominates hfound hindex hending hstays h
  · rename_i pad hpad
    split at h
    · rename_i normal hnormal
      have hne : normal ≠ pad := by
        have hmem : normal ∈ (function.successors block).filter (· ≠ pad) :=
          hnormal ▸ List.mem_singleton_self normal
        simpa using (List.mem_filter.mp hmem).2
      intro havoids
      exact not_enters_of_edgeDominates h (fun hfollows => hfollows ⟨rfl, rfl⟩)
        (havoids.enters hpad hne).2
    · exact absurd h Bool.false_ne_true

-- Unwinding from one instruction, a path that avoids another goes on avoiding it.
theorem Avoids.unwound {block index place position pad : Nat}
    (h : function.Avoids block index place position)
    (hpad : function.unwindDest place position = some pad) : function.Avoids block index pad 0 := by
  obtain ⟨found, hfound, hlast, _, hmem⟩ := unwindDest_eq_some hpad
  by_cases hsite : (place, position) = (block, index)
  · cases hsite
    exact h.unwind hpad
  · have hlt : position < found.instructions.length := by omega
    have hinstruction : function.instructionAt place position = some found.instructions[position] := by
      rw [instructionAt, hfound, Option.bind_some, List.getElem?_eq_getElem hlt]
    have hend := h.next hinstruction hsite
    rw [hlast] at hend
    exact hend.branch hfound hmem

-- A path that gets anywhere has not been past an instruction, or has a first visit to it.
theorem Avoids.first {block index other offset place position : Nat}
    (h : function.Avoids other offset place position) :
    function.Avoids block index place position ∨ function.Avoids block index block index := by
  induction h with
  | entry => exact .inl .entry
  | @next place position instruction _ hinstruction _ ih =>
      rcases ih with ih | ih
      · by_cases hsite : (place, position) = (block, index)
        · cases hsite
          exact .inr ih
        · exact .inl (ih.next hinstruction hsite)
      · exact .inr ih
  | branch _ hfound hsuccessor ih => exact ih.imp_left fun h => h.branch hfound hsuccessor
  | unwind _ hpad ih => exact ih.imp_left fun h => h.unwound hpad

variable (function) in
-- Where any path gets to: it avoids what the function does not have.
def Gets (place position : Nat) : Prop :=
  function.Avoids function.blocks.length 0 place position

theorem Gets.next {place position : Nat} {instruction : Instruction} (h : function.Gets place position)
    (hinstruction : function.instructionAt place position = some instruction) :
    function.Gets place (position + 1) := by
  refine Avoids.next h hinstruction fun hsite => ?_
  obtain ⟨found, hfound, _⟩ := Option.bind_eq_some_iff.mp hinstruction
  have hlt := (List.getElem?_eq_some_iff.mp hfound).1
  rw [(Prod.mk.inj hsite).1] at hlt
  exact lt_irrefl _ hlt

-- Where a path stands at an instruction, one has got there that has not been past it.
theorem Gets.avoids {place position : Nat} (h : function.Gets place position) :
    function.Avoids place position place position := or_self_iff.mp h.first

end Instructions

end ConcurrencyAnalyzer.Program.Function
