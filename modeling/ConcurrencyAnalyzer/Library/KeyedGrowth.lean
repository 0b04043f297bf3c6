import ConcurrencyAnalyzer.Library.Settle
import Mathlib.Data.Finset.Card
import Mathlib.Data.List.Nodup

namespace ConcurrencyAnalyzer.Library.KeyedGrowth

variable {α κ ρ : Type*} [DecidableEq κ] (key : α → κ) (derive : ρ → α → Option α)

-- Keeps an element last, unless one of its key is kept.
def insert (kept : List α) (element : α) : List α :=
  if kept.any (key · = key element) then kept else kept ++ [element]

-- A rule derives from what was kept when its turn came.
def apply (kept : List α) (rule : ρ) : List α :=
  (kept.filterMap (derive rule)).foldl (insert key) kept

def round (rules : List ρ) (kept : List α) : List α :=
  rules.foldl (apply key derive) kept

-- Nothing was kept in a round.
def unchanged (before after : List α) : Bool :=
  before.length = after.length

-- The loop that repeats the rules while one of them has something kept.
def grow (rules : List ρ) (fuel : Nat) (start : List α) : List α :=
  settle unchanged (round key derive rules) fuel start

inductive Derived (rules : List ρ) (start : List α) : α → Prop
  | start {element} : element ∈ start → Derived rules start element
  | step {rule element next} : Derived rules start element → rule ∈ rules →
      derive rule element = some next → Derived rules start next

-- Elements of one key lead to elements of one key.
def Congruent (rules : List ρ) : Prop :=
  ∀ rule ∈ rules, ∀ element other, key element = key other →
    (derive rule element).map key = (derive rule other).map key

variable {key derive} {rules : List ρ} {start kept : List α} {element : α} {known : Finset κ}

theorem mem_keys_insert (kept : List α) (element : α) (k : κ) :
    k ∈ (insert key kept element).map key ↔ k ∈ kept.map key ∨ k = key element := by
  unfold insert
  split
  · rename_i hany
    obtain ⟨other, hother, hsame⟩ := List.any_eq_true.mp hany
    refine ⟨.inl, ?_⟩
    rintro (hmem | rfl)
    · exact hmem
    · rw [← of_decide_eq_true hsame]
      exact List.mem_map_of_mem hother
  · simp

theorem insert_nodup (h : (kept.map key).Nodup) : ((insert key kept element).map key).Nodup := by
  unfold insert
  split
  · exact h
  · rename_i hnone
    rw [List.map_append, List.nodup_append]
    refine ⟨h, by simp, ?_⟩
    rintro k hk other hother rfl
    obtain ⟨first, hfirst, rfl⟩ := List.mem_map.mp hk
    simp only [List.any_eq_true, decide_eq_true_eq, not_exists, not_and] at hnone
    exact hnone first hfirst (by simpa using hother)

variable (key) in
theorem insert_eq_or_length (kept : List α) (element : α) :
    insert key kept element = kept ∨ (insert key kept element).length = kept.length + 1 := by
  unfold insert
  split
  · exact .inl rfl
  · exact .inr (by simp)

theorem mem_insert {other : α} (h : other ∈ insert key kept element) : other ∈ kept ∨ other = element := by
  unfold insert at h
  split at h
  · exact .inl h
  · simpa using h

theorem mem_insert_of_mem {other : α} (h : other ∈ kept) : other ∈ insert key kept element := by
  unfold insert
  split
  · exact h
  · exact List.mem_append_left _ h

theorem mem_foldl_insert_of_mem {other : α} (elements : List α) (h : other ∈ kept) :
    other ∈ elements.foldl (insert key) kept := by
  induction elements generalizing kept with
  | nil => exact h
  | cons first rest ih => exact ih (mem_insert_of_mem h)

theorem mem_keys_foldl_insert (elements : List α) (k : κ) :
    k ∈ (elements.foldl (insert key) kept).map key ↔ k ∈ kept.map key ∨ k ∈ elements.map key := by
  induction elements generalizing kept with
  | nil => simp
  | cons first rest ih =>
      rw [List.foldl_cons, ih, mem_keys_insert, List.map_cons, List.mem_cons, or_assoc]

theorem foldl_insert_nodup (elements : List α) (h : (kept.map key).Nodup) :
    ((elements.foldl (insert key) kept).map key).Nodup := by
  induction elements generalizing kept with
  | nil => exact h
  | cons first rest ih => exact ih (insert_nodup h)

theorem mem_foldl_insert (elements : List α) {other : α}
    (h : other ∈ elements.foldl (insert key) kept) : other ∈ kept ∨ other ∈ elements := by
  induction elements generalizing kept with
  | nil => exact .inl h
  | cons first rest ih =>
      rcases ih h with hkept | hrest
      · rcases mem_insert hkept with hold | rfl
        · exact .inl hold
        · exact .inr (List.mem_cons_self ..)
      · exact .inr (List.mem_cons_of_mem _ hrest)

-- What is kept of a list is the first of its key.
theorem find?_of_mem_inserted {elements : List α} (h : element ∈ elements.foldl (insert key) []) :
    elements.find? (key · = key element) = some element := by
  induction elements using List.reverseRecOn with
  | nil => cases h
  | append_singleton before last ih =>
      rw [List.foldl_append, List.foldl_cons, List.foldl_nil, insert] at h
      rw [List.find?_append]
      by_cases hknown : (before.foldl (insert key) []).any (key · = key last) = true
      · rw [if_pos hknown] at h
        rw [ih h, Option.some_or]
      · rw [if_neg hknown, List.mem_append, List.mem_singleton] at h
        rcases h with hold | rfl
        · rw [ih hold, Option.some_or]
        · have hnone : before.find? (key · = key element) = none := by
            rw [List.find?_eq_none]
            intro other hother hsame
            have hkey : key element ∈ (before.foldl (insert key) []).map key := by
              rw [mem_keys_foldl_insert, ← of_decide_eq_true hsame]
              exact .inr (List.mem_map_of_mem hother)
            obtain ⟨first, hfirst, hfirstKey⟩ := List.mem_map.mp hkey
            exact hknown (List.any_eq_true.mpr ⟨first, hfirst, by simp [hfirstKey]⟩)
          rw [hnone, Option.none_or]
          simp

variable (key) in
theorem length_le_foldl_insert (elements : List α) (kept : List α) :
    elements.foldl (insert key) kept = kept ∨
      kept.length < (elements.foldl (insert key) kept).length := by
  induction elements generalizing kept with
  | nil => exact .inl rfl
  | cons first rest ih =>
      rw [List.foldl_cons]
      rcases insert_eq_or_length key kept first with hsame | hlonger
      · rw [hsame]
        exact ih kept
      · rcases ih (insert key kept first) with hrest | hrest
        · rw [hrest]
          exact .inr (by omega)
        · exact .inr (by omega)

variable (key derive) in
theorem round_eq_or_lt (rules : List ρ) (kept : List α) :
    round key derive rules kept = kept ∨ kept.length < (round key derive rules kept).length := by
  induction rules generalizing kept with
  | nil => exact .inl rfl
  | cons rule rest ih =>
      rw [round, List.foldl_cons, ← round]
      rcases length_le_foldl_insert key (kept.filterMap (derive rule)) kept with hsame | hlonger
      · rw [apply, hsame]
        exact ih kept
      · rcases ih (apply key derive kept rule) with hrest | hrest
        · rw [hrest]
          exact .inr hlonger
        · refine .inr ?_
          unfold apply at hrest ⊢
          omega

-- What a round leaves alone each rule leaves alone.
theorem apply_eq_of_round_eq (hsame : round key derive rules kept = kept) {rule : ρ} (hmem : rule ∈ rules) :
    apply key derive kept rule = kept := by
  have hlonger (kept : List α) (rule : ρ) :
      apply key derive kept rule = kept ∨ kept.length < (apply key derive kept rule).length :=
    length_le_foldl_insert key _ kept
  induction rules with
  | nil => cases hmem
  | cons first rest ih =>
      rw [round, List.foldl_cons, ← round] at hsame
      have hrest := round_eq_or_lt key derive rest (apply key derive kept first)
      have hfirst : apply key derive kept first = kept := by
        rcases hlonger kept first with hfirst | hfirst
        · exact hfirst
        · have hlengths := congrArg List.length hsame
          rcases hrest with hrest | hrest
          · rw [hrest] at hlengths
            omega
          · omega
      rcases List.mem_cons.mp hmem with rfl | hmem
      · exact hfirst
      · rw [hfirst] at hsame
        exact ih hsame hmem

variable (key derive rules start kept known) in
-- What holds while the loop runs.
structure Grown : Prop where
  nodup : (kept.map key).Nodup
  inside : ∀ k ∈ kept.map key, k ∈ known
  sound : ∀ element ∈ kept, Derived derive rules start element
  kept : ∀ element ∈ start, element ∈ kept

theorem Grown.apply (h : Grown key derive rules start kept known)
    (hbound : ∀ rule ∈ rules, ∀ element next, derive rule element = some next → key next ∈ known)
    {rule : ρ} (hrule : rule ∈ rules) :
    Grown key derive rules start (apply key derive kept rule) known where
  nodup := foldl_insert_nodup _ h.nodup
  inside := by
    intro k hk
    rcases (mem_keys_foldl_insert _ k).mp hk with hold | hnew
    · exact h.inside k hold
    · obtain ⟨next, hnext, rfl⟩ := List.mem_map.mp hnew
      obtain ⟨element, _, hderive⟩ := List.mem_filterMap.mp hnext
      exact hbound rule hrule element next hderive
  sound := by
    intro other hother
    rcases mem_foldl_insert _ hother with hold | hnew
    · exact h.sound other hold
    · obtain ⟨element, helement, hderive⟩ := List.mem_filterMap.mp hnew
      exact (h.sound element helement).step hrule hderive
  kept := fun element hmem => mem_foldl_insert_of_mem _ (h.kept element hmem)

theorem Grown.round (h : Grown key derive rules start kept known)
    (hbound : ∀ rule ∈ rules, ∀ element next, derive rule element = some next → key next ∈ known) :
    Grown key derive rules start (round key derive rules kept) known := by
  unfold KeyedGrowth.round
  refine List.foldlRecOn (motive := fun kept => Grown key derive rules start kept known) rules _ h ?_
  exact fun kept hkept rule hrule => hkept.apply hbound hrule

theorem Grown.length_le (h : Grown key derive rules start kept known) :
    kept.length ≤ known.card := by
  rw [← List.length_map key, ← List.toFinset_card_of_nodup h.nodup]
  refine Finset.card_le_card fun k hk => h.inside k (List.mem_toFinset.mp hk)

-- The loop ends by itself, in a list that no rule adds to.
theorem grow_ends (hstart : Grown key derive rules start start known)
    (hbound : ∀ rule ∈ rules, ∀ element next, derive rule element = some next → key next ∈ known)
    {fuel : Nat} (hfuel : known.card ≤ fuel) :
    Ends unchanged (round key derive rules) start (grow key derive rules fuel start) ∧
      Grown key derive rules start (grow key derive rules fuel start) known ∧
      round key derive rules (grow key derive rules fuel start) = grow key derive rules fuel start := by
  have hround : ∀ kept, Grown key derive rules start kept known →
      Grown key derive rules start (round key derive rules kept) known :=
    fun kept h => h.round hbound
  have hless : ∀ kept, Grown key derive rules start kept known →
      unchanged kept (round key derive rules kept) = false →
        known.card - (round key derive rules kept).length < known.card - kept.length := by
    intro kept h hchanged
    have hlength := (h.round hbound).length_le
    rcases round_eq_or_lt key derive rules kept with hsame | hlonger
    · rw [hsame] at hchanged
      simp [unchanged] at hchanged
    · omega
  have hends := settle_ends (fun kept => known.card - kept.length) hround hless hstart
    (show known.card - start.length ≤ fuel by omega)
  refine ⟨hends, settle_invariant hround fuel hstart, ?_⟩
  obtain ⟨_, _, hsettled, _⟩ := hends
  rcases round_eq_or_lt key derive rules (grow key derive rules fuel start)
    with hsame | hlonger
  · exact hsame
  · have hlengths := of_decide_eq_true hsettled
    unfold grow at hlonger
    omega

omit [DecidableEq κ] in
theorem Derived.mono {others : List α} (h : Derived derive rules start element)
    (hstart : ∀ element ∈ start, element ∈ others) : Derived derive rules others element := by
  induction h with
  | start hmem => exact .start (hstart _ hmem)
  | step _ hrule hderive ih => exact ih.step hrule hderive

-- A list that no rule adds to has the key of everything derived from elements whose keys it has.
theorem derived_kept (hcongruent : Congruent key derive rules)
    (hkept : ∀ element ∈ start, key element ∈ kept.map key) (hfixed : round key derive rules kept = kept)
    (h : Derived derive rules start element) : key element ∈ kept.map key := by
  induction h with
  | start hmem => exact hkept _ hmem
  | @step rule before next _ hrule hderive ih =>
      obtain ⟨other, hother, hsame⟩ := List.mem_map.mp ih
      have hkeys := hcongruent rule hrule other before hsame
      rw [hderive, Option.map_some] at hkeys
      obtain ⟨after, hafter, hkey⟩ := Option.map_eq_some_iff.mp hkeys
      have hin : key after ∈ (apply key derive kept rule).map key :=
        (mem_keys_foldl_insert _ _).mpr
          (.inr (List.mem_map_of_mem (List.mem_filterMap.mpr ⟨other, hother, hafter⟩)))
      rw [apply_eq_of_round_eq hfixed hrule, hkey] at hin
      exact hin

end ConcurrencyAnalyzer.Library.KeyedGrowth
