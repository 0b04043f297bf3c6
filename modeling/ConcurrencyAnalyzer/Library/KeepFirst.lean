import Mathlib.Data.List.Nodup
import Mathlib.Algebra.GroupWithZero.Nat

namespace ConcurrencyAnalyzer.Library.KeepFirst

variable {α κ : Type*} [DecidableEq κ] (key : α → κ) (unite : α → α → α)

-- Unites an element with the one already kept under its key, or keeps it last.
def keep (kept : List α) (element : α) : List α :=
  match kept with
  | [] => [element]
  | first :: rest =>
      if key first = key element then unite first element :: rest
      else first :: keep rest element

-- The elements that arrive under one key after the first of them.
def sameKey (first : α) (elements : List α) : List α :=
  elements.filter fun element => key element = key first

-- No element arrived under the key before.
structure FirstOfKey (elements before after : List α) (first : α) : Prop where
  split : elements = before ++ first :: after
  fresh : ∀ element ∈ before, key element ≠ key first

variable {key unite}

-- Where keys are distinct, an element is the first under its own.
theorem find?_of_mem {elements : List α} (hnodup : (elements.map key).Nodup) {element : α}
    (hmem : element ∈ elements) :
    elements.find? (fun other => key other = key element) = some element := by
  induction elements with
  | nil => exact absurd hmem List.not_mem_nil
  | cons first rest ih =>
      rw [List.map_cons, List.nodup_cons] at hnodup
      rcases List.mem_cons.mp hmem with rfl | hmem
      · simp
      · have hne : key first ≠ key element := fun heq => hnodup.1 (heq ▸ List.mem_map_of_mem hmem)
        rw [List.find?_cons_of_neg (by simpa using hne)]
        exact ih hnodup.2 hmem

theorem mem_keep_of_mem {kept : List α} {element : α} (hnodup : (kept.map key).Nodup)
    (hmem : key element ∈ kept.map key) (other : α) :
    other ∈ keep key unite kept element ↔
      (other ∈ kept ∧ key other ≠ key element) ∨
        ∃ first ∈ kept, key first = key element ∧ other = unite first element := by
  induction kept with
  | nil => cases hmem
  | cons head rest ih =>
      rw [List.map_cons] at hnodup hmem
      obtain ⟨hnot, hnodup⟩ := List.nodup_cons.mp hnodup
      unfold keep
      split
      · rename_i heq
        have hrest : ∀ other ∈ rest, key other ≠ key element := fun other ho h =>
          hnot (heq ▸ h ▸ List.mem_map_of_mem ho)
        rw [List.mem_cons]
        constructor
        · rintro (rfl | ho)
          · exact Or.inr ⟨head, List.mem_cons_self .., heq, rfl⟩
          · exact Or.inl ⟨List.mem_cons_of_mem _ ho, hrest other ho⟩
        · rintro (⟨ho, hne⟩ | ⟨first, hf, hfk, rfl⟩)
          · rcases List.mem_cons.mp ho with rfl | ho
            · exact absurd heq hne
            · exact Or.inr ho
          · rcases List.mem_cons.mp hf with rfl | hf
            · exact Or.inl rfl
            · exact absurd hfk (hrest first hf)
      · rename_i hne
        have hmem : key element ∈ rest.map key := by
          rcases List.mem_cons.mp hmem with h | h
          · exact absurd h.symm hne
          · exact h
        rw [List.mem_cons, ih hnodup hmem]
        constructor
        · rintro (rfl | ⟨ho, hk⟩ | ⟨first, hf, hfk, rfl⟩)
          · exact Or.inl ⟨List.mem_cons_self .., hne⟩
          · exact Or.inl ⟨List.mem_cons_of_mem _ ho, hk⟩
          · exact Or.inr ⟨first, List.mem_cons_of_mem _ hf, hfk, rfl⟩
        · rintro (⟨ho, hk⟩ | ⟨first, hf, hfk, rfl⟩)
          · rcases List.mem_cons.mp ho with rfl | ho
            · exact Or.inl rfl
            · exact Or.inr (Or.inl ⟨ho, hk⟩)
          · rcases List.mem_cons.mp hf with rfl | hf
            · exact absurd hfk hne
            · exact Or.inr (Or.inr ⟨first, hf, hfk, rfl⟩)

-- What uniting leaves alone is the same of an element kept before and after.
theorem map_keep_of_mem {β : Type*} {f : α → β} (hf : ∀ first element, f (unite first element) = f first)
    {kept : List α} {element : α} (hmem : key element ∈ kept.map key) :
    (keep key unite kept element).map f = kept.map f := by
  induction kept with
  | nil => cases hmem
  | cons head rest ih =>
      unfold keep
      split
      · rw [List.map_cons, hf, List.map_cons]
      · rename_i hne
        rw [List.map_cons, List.mem_cons] at hmem
        have hrest : key element ∈ rest.map key := hmem.resolve_left (Ne.symm hne)
        rw [List.map_cons, ih hrest, List.map_cons]

theorem keep_of_not_mem {kept : List α} {element : α} (hmem : key element ∉ kept.map key) :
    keep key unite kept element = kept ++ [element] := by
  induction kept with
  | nil => rfl
  | cons head rest ih =>
      rw [List.map_cons, List.mem_cons, not_or] at hmem
      rw [keep, if_neg (Ne.symm hmem.1), ih hmem.2, List.cons_append]

-- A map that leaves keys alone and respects the union commutes with keeping.
theorem map_keep {f : α → α} (hkey : ∀ element, key (f element) = key element)
    (hunite : ∀ first element, f (unite first element) = unite (f first) (f element))
    (kept : List α) (element : α) :
    (keep key unite kept element).map f = keep key unite (kept.map f) (f element) := by
  induction kept with
  | nil => rfl
  | cons first rest ih =>
      rw [keep, List.map_cons, keep, hkey, hkey]
      split
      · rw [List.map_cons, hunite]
      · rw [List.map_cons, ih]

theorem map_key_keep (hkey : ∀ first element, key (unite first element) = key first)
    (kept : List α) (element : α) :
    (keep key unite kept element).map key =
      if key element ∈ kept.map key then kept.map key else kept.map key ++ [key element] := by
  induction kept with
  | nil => rfl
  | cons head rest ih =>
      unfold keep
      split
      · rename_i heq
        simp [hkey, heq]
      · rename_i hne
        rw [List.map_cons, ih, List.map_cons]
        by_cases hm : key element ∈ rest.map key
        · rw [if_pos hm, if_pos (List.mem_cons_of_mem _ hm)]
        · rw [if_neg hm, if_neg, List.cons_append]
          rw [List.mem_cons, not_or]
          exact ⟨Ne.symm hne, hm⟩

theorem nodup_keep (hkey : ∀ first element, key (unite first element) = key first)
    {kept : List α} (element : α) (hnodup : (kept.map key).Nodup) :
    ((keep key unite kept element).map key).Nodup := by
  rw [map_key_keep hkey]
  split
  · exact hnodup
  · rename_i hnot
    rw [List.nodup_append]
    refine ⟨hnodup, List.nodup_singleton _, ?_⟩
    intro first hf second hs
    rw [List.mem_singleton] at hs
    rintro rfl
    exact hnot (hs ▸ hf)

theorem sameKey_congr {first second : α} (h : key first = key second) (elements : List α) :
    sameKey key first elements = sameKey key second elements := by
  rw [sameKey, sameKey, h]

theorem sameKey_cons_of_eq {first element : α} (heq : key element = key first) (elements : List α) :
    sameKey key first (element :: elements) = element :: sameKey key first elements := by
  rw [sameKey, List.filter_cons_of_pos (by simpa using heq), sameKey]

theorem sameKey_cons_of_ne {first element : α} (hne : key element ≠ key first) (elements : List α) :
    sameKey key first (element :: elements) = sameKey key first elements := by
  rw [sameKey, List.filter_cons_of_neg (by simpa using hne), sameKey]

section FirstOfKey

variable {element first : α} {elements before after : List α}

omit [DecidableEq κ]

theorem FirstOfKey.head : FirstOfKey key (element :: elements) [] elements element :=
  ⟨rfl, fun _ hmem => absurd hmem List.not_mem_nil⟩

theorem FirstOfKey.cons (h : FirstOfKey key elements before after first) (hne : key element ≠ key first) :
    FirstOfKey key (element :: elements) (element :: before) after first := by
  refine ⟨?_, List.forall_mem_cons.mpr ⟨hne, h.fresh⟩⟩
  rw [h.split, List.cons_append]

-- The first under its key is the first of all, or the first under another key than that one's.
theorem FirstOfKey.eq_or_cons (h : FirstOfKey key (element :: elements) before after first) :
    (first = element ∧ after = elements) ∨
      key element ≠ key first ∧ ∃ rest, FirstOfKey key elements rest after first := by
  have hsplit := h.split
  cases before with
  | nil =>
      simp only [List.nil_append, List.cons.injEq] at hsplit
      exact Or.inl ⟨hsplit.1.symm, hsplit.2.symm⟩
  | cons head rest =>
      simp only [List.cons_append, List.cons.injEq] at hsplit
      obtain ⟨rfl, hsplit⟩ := hsplit
      obtain ⟨hhead, hfresh⟩ := List.forall_mem_cons.mp h.fresh
      exact Or.inr ⟨hhead, rest, hsplit, hfresh⟩

end FirstOfKey

-- What is kept after some arrivals: what was kept before, each united with the arrivals under its
-- key, and the first arrival under each other key, united with those that follow it.
theorem mem_foldl_keep (hkey : ∀ first element, key (unite first element) = key first)
    (elements kept : List α) (hnodup : (kept.map key).Nodup) (other : α) :
    other ∈ elements.foldl (keep key unite) kept ↔
      (∃ first ∈ kept, other = (sameKey key first elements).foldl unite first) ∨
        ∃ before after first, FirstOfKey key elements before after first ∧
          key first ∉ kept.map key ∧ other = (sameKey key first after).foldl unite first := by
  induction elements generalizing kept with
  | nil =>
      simp only [List.foldl_nil, sameKey, List.filter_nil]
      constructor
      · intro h
        exact Or.inl ⟨other, h, rfl⟩
      · rintro (⟨first, hf, rfl⟩ | ⟨before, after, first, hfirst, _⟩)
        · exact hf
        · have hsplit := hfirst.split
          simp at hsplit
  | cons element elements ih =>
      rw [List.foldl_cons, ih _ (nodup_keep hkey element hnodup), map_key_keep hkey]
      by_cases hmem : key element ∈ kept.map key
      · rw [if_pos hmem]
        constructor
        · rintro (⟨first, hf, rfl⟩ | ⟨before, after, first, hfirst, hnot, rfl⟩)
          · rcases (mem_keep_of_mem hnodup hmem first).mp hf with
              ⟨hf, hne⟩ | ⟨old, ho, hok, rfl⟩
            · exact Or.inl ⟨first, hf, by rw [sameKey_cons_of_ne hne.symm]⟩
            · refine Or.inl ⟨old, ho, ?_⟩
              rw [sameKey_congr (hkey old element), sameKey_cons_of_eq hok.symm, List.foldl_cons]
          · exact Or.inr ⟨element :: before, after, first,
              hfirst.cons fun heq => hnot (heq ▸ hmem), hnot, rfl⟩
        · rintro (⟨first, hf, rfl⟩ | ⟨before, after, first, hfirst, hnot, rfl⟩)
          · left
            by_cases hk : key first = key element
            · refine ⟨unite first element,
                (mem_keep_of_mem hnodup hmem _).mpr (Or.inr ⟨first, hf, hk, rfl⟩), ?_⟩
              rw [sameKey_congr (hkey first element), sameKey_cons_of_eq hk.symm, List.foldl_cons]
            · refine ⟨first, (mem_keep_of_mem hnodup hmem _).mpr (Or.inl ⟨hf, hk⟩), ?_⟩
              rw [sameKey_cons_of_ne (Ne.symm hk)]
          · rcases hfirst.eq_or_cons with ⟨rfl, rfl⟩ | ⟨_, rest, hrest⟩
            · exact absurd hmem hnot
            · exact Or.inr ⟨rest, after, first, hrest, hnot, rfl⟩
      · rw [if_neg hmem, keep_of_not_mem hmem]
        have hne {first : α} (hf : first ∈ kept) : key element ≠ key first := fun heq =>
          hmem (heq ▸ List.mem_map_of_mem hf)
        constructor
        · rintro (⟨first, hf, rfl⟩ | ⟨before, after, first, hfirst, hnot, rfl⟩)
          · rcases List.mem_append.mp hf with hf | hf
            · exact Or.inl ⟨first, hf, by rw [sameKey_cons_of_ne (hne hf)]⟩
            · rw [List.mem_singleton] at hf
              subst hf
              exact Or.inr ⟨[], elements, first, .head, hmem, rfl⟩
          · rw [List.mem_append, List.mem_singleton, not_or] at hnot
            exact Or.inr ⟨element :: before, after, first, hfirst.cons (Ne.symm hnot.2), hnot.1, rfl⟩
        · rintro (⟨first, hf, rfl⟩ | ⟨before, after, first, hfirst, hnot, rfl⟩)
          · exact Or.inl ⟨first, List.mem_append_left _ hf, by rw [sameKey_cons_of_ne (hne hf)]⟩
          · rcases hfirst.eq_or_cons with ⟨rfl, rfl⟩ | ⟨hhead, rest, hrest⟩
            · exact Or.inl ⟨first, List.mem_append_right _ (List.mem_singleton_self _), rfl⟩
            · refine Or.inr ⟨rest, after, first, hrest, ?_, rfl⟩
              rw [List.mem_append, List.mem_singleton, not_or]
              exact ⟨hnot, Ne.symm hhead⟩

theorem FirstOfKey.find? {elements before after : List α} {first : α}
    (h : FirstOfKey key elements before after first) :
    elements.find? (key · = key first) = some first := by
  refine List.find?_eq_some_iff_append.mpr ⟨by simp, before, after, h.split, ?_⟩
  intro element helement
  simpa using h.fresh element helement

-- What comes under the key of a first element is that element and what is united with it.
theorem FirstOfKey.mem_iff {elements before after : List α} {first : α}
    (h : FirstOfKey key elements before after first) {element : α} :
    element ∈ first :: sameKey key first after ↔
      element ∈ elements ∧ key element = key first := by
  rw [h.split, List.mem_cons, List.mem_append, List.mem_cons, sameKey, List.mem_filter,
    decide_eq_true_eq]
  constructor
  · rintro (rfl | ⟨hafter, hkey⟩)
    · exact ⟨.inr (.inl rfl), rfl⟩
    · exact ⟨.inr (.inr hafter), hkey⟩
  · rintro ⟨hbefore | rfl | hafter, hkey⟩
    · exact absurd hkey (h.fresh element hbefore)
    · exact .inl rfl
    · exact .inr ⟨hafter, hkey⟩

theorem exists_firstOfKey {elements : List α} {element : α} (h : element ∈ elements) :
    ∃ before after first, FirstOfKey key elements before after first ∧ key first = key element := by
  induction elements with
  | nil => exact absurd h List.not_mem_nil
  | cons head rest ih =>
      by_cases hkey : key head = key element
      · exact ⟨[], rest, head, .head, hkey⟩
      · have hrest : element ∈ rest := by
          rcases List.mem_cons.mp h with rfl | hrest
          · exact absurd rfl hkey
          · exact hrest
        obtain ⟨before, after, first, hfirst, hsame⟩ := ih hrest
        exact ⟨head :: before, after, first, hfirst.cons (hsame.symm ▸ hkey), hsame⟩

omit [DecidableEq κ] in
theorem key_foldl_unite (hkey : ∀ first element, key (unite first element) = key first)
    (elements : List α) (first : α) : key (elements.foldl unite first) = key first := by
  induction elements generalizing first with
  | nil => rfl
  | cons element elements ih => rw [List.foldl_cons, ih, hkey]

-- Something is kept under the key of each arrival.
theorem exists_kept (hkey : ∀ first element, key (unite first element) = key first)
    {elements : List α} {element : α} (h : element ∈ elements) :
    ∃ other ∈ elements.foldl (keep key unite) [], key other = key element := by
  obtain ⟨before, after, first, hfirst, hsame⟩ : ∃ before after first,
      FirstOfKey key elements before after first ∧ key first = key element := exists_firstOfKey h
  refine ⟨_, (mem_foldl_keep hkey elements [] List.nodup_nil _).mpr
    (.inr ⟨before, after, first, hfirst, List.not_mem_nil, rfl⟩), ?_⟩
  rw [key_foldl_unite hkey, hsame]

-- The first element a walk finds is found at the earliest place that has one.
theorem find?_flatMap_iff {σ : Type*} {earlier : σ → σ → Prop} {places : List σ} {found : σ → List α}
    {wanted : α → Bool} {first : α} (hsorted : places.Pairwise earlier)
    (hasymm : ∀ place other, earlier place other → ¬earlier other place) :
    (places.flatMap found).find? wanted = some first ↔
      ∃ place ∈ places, (found place).find? wanted = some first ∧
        ∀ other ∈ places, earlier other place → ∀ element ∈ found other, wanted element = false := by
  induction places with
  | nil => simp
  | cons place places ih =>
      obtain ⟨hafter, hsorted⟩ := List.pairwise_cons.mp hsorted
      rw [List.flatMap_cons, List.find?_append]
      cases hhere : (found place).find? wanted with
      | some here =>
          rw [Option.some_or]
          constructor
          · intro hfirst
            refine ⟨place, List.mem_cons_self, hhere.trans hfirst, ?_⟩
            intro other hother hearlier
            rcases List.mem_cons.mp hother with rfl | hother
            · exact absurd hearlier (hasymm _ _ hearlier)
            · exact absurd hearlier (hasymm _ _ (hafter other hother))
          · rintro ⟨other, hother, hfirst, hnone⟩
            rcases List.mem_cons.mp hother with rfl | hother
            · exact hhere.symm.trans hfirst
            · have hno := hnone place List.mem_cons_self (hafter other hother) here
                (List.mem_of_find?_eq_some hhere)
              rw [List.find?_some hhere] at hno
              cases hno
      | none =>
          rw [Option.none_or, ih hsorted]
          have hnothing (element : α) (helement : element ∈ found place) :
              wanted element = false := by
            simpa using List.find?_eq_none.mp hhere element helement
          constructor
          · rintro ⟨other, hother, hfirst, hnone⟩
            refine ⟨other, List.mem_cons_of_mem _ hother, hfirst, ?_⟩
            exact List.forall_mem_cons.mpr ⟨fun _ => hnothing, hnone⟩
          · rintro ⟨other, hother, hfirst, hnone⟩
            rcases List.mem_cons.mp hother with rfl | hother
            · rw [hhere] at hfirst
              cases hfirst
            · exact ⟨other, hother, hfirst, (List.forall_mem_cons.mp hnone).2⟩

theorem forall_mem_keep {P : α → Prop}
    (hunite : ∀ first element, P first → P element → P (unite first element)) {kept : List α}
    (h : ∀ first ∈ kept, P first) {element : α} (helement : P element) :
    ∀ other ∈ keep key unite kept element, P other := by
  induction kept with
  | nil => simpa [keep] using helement
  | cons head rest ih =>
      obtain ⟨hhead, hrest⟩ := List.forall_mem_cons.mp h
      unfold keep
      split
      · exact List.forall_mem_cons.mpr ⟨hunite head element hhead helement, hrest⟩
      · exact List.forall_mem_cons.mpr ⟨hhead, ih hrest⟩

section Gain

variable (key unite) (size : α → Nat)

-- Whether what is kept gains something by an element: a key, or something united with the first of it.
def gains (kept : List α) (element : α) : Bool :=
  match kept.find? (key · = key element) with
  | none => true
  | some first => size (unite first element) ≠ size first

def weight (kept : List α) : Nat := (kept.map fun element => 1 + size element).sum

variable {key unite size}

theorem keep_of_not_gains
    (hsame : ∀ first element, size (unite first element) = size first → unite first element = first)
    {kept : List α} {element : α} (h : gains key unite size kept element = false) :
    keep key unite kept element = kept := by
  unfold gains at h
  induction kept with
  | nil => simp at h
  | cons head rest ih =>
      unfold keep
      by_cases hkey : key head = key element
      · simp only [List.find?_cons, hkey, decide_true] at h
        rw [if_pos hkey, hsame head element (by simpa using h)]
      · simp only [List.find?_cons, hkey, decide_false] at h
        rw [if_neg hkey, ih h]

theorem weight_lt_of_gains (hle : ∀ first element, size first ≤ size (unite first element))
    {kept : List α} {element : α} (h : gains key unite size kept element = true) :
    weight size kept < weight size (keep key unite kept element) := by
  unfold gains at h
  unfold weight
  induction kept with
  | nil =>
      simp only [keep, List.map_nil, List.sum_nil, List.map_cons, List.sum_cons]
      omega
  | cons head rest ih =>
      unfold keep
      by_cases hkey : key head = key element
      · simp only [List.find?_cons, hkey, decide_true, ne_eq, decide_eq_true_eq] at h
        have := hle head element
        rw [if_pos hkey, List.map_cons, List.sum_cons, List.map_cons, List.sum_cons]
        omega
      · simp only [List.find?_cons, hkey, decide_false] at h
        have := ih h
        rw [if_neg hkey, List.map_cons, List.sum_cons, List.map_cons, List.sum_cons]
        omega

theorem weight_le_keep (hle : ∀ first element, size first ≤ size (unite first element))
    (hsame : ∀ first element, size (unite first element) = size first → unite first element = first)
    (kept : List α) (element : α) : weight size kept ≤ weight size (keep key unite kept element) := by
  cases h : gains key unite size kept element with
  | false => exact Nat.le_of_eq (by rw [keep_of_not_gains hsame h])
  | true => exact Nat.le_of_lt (weight_lt_of_gains hle h)

theorem weight_le_of_size_le {kept : List α} {bound : Nat} (h : ∀ element ∈ kept, size element ≤ bound) :
    weight size kept ≤ kept.length * (1 + bound) := by
  unfold weight
  induction kept with
  | nil => exact Nat.zero_le _
  | cons head rest ih =>
      obtain ⟨hhead, hrest⟩ := List.forall_mem_cons.mp h
      have := ih hrest
      rw [List.map_cons, List.sum_cons, List.length_cons, Nat.succ_mul]
      omega

end Gain

end ConcurrencyAnalyzer.Library.KeepFirst
