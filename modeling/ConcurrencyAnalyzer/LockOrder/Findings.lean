import ConcurrencyAnalyzer.LockOrder.Cycles

namespace ConcurrencyAnalyzer.LockOrder

section Gate

theorem mem_foldl_inter {locks : List LockSet} {first : LockSet} {lock : String} :
    lock ∈ locks.foldl (· ∩ ·) first ↔ lock ∈ first ∧ ∀ others ∈ locks, lock ∈ others := by
  induction locks generalizing first with
  | nil => simp
  | cons head rest ih =>
      rw [List.foldl_cons, ih, Finset.mem_inter, List.forall_mem_cons, and_assoc]

-- A gate is a lock outside the cycle that every order of it holds.
theorem hasCommonGateLock_iff (cycle : List LockOrderFact) :
    hasCommonGateLock cycle = true ↔
      cycle ≠ [] ∧ ∃ lock, ∀ order ∈ cycle, lock ∈ gateCandidates cycle order := by
  cases cycle with
  | nil => simp [hasCommonGateLock]
  | cons head rest =>
      rw [hasCommonGateLock, List.map_cons]
      simp only [ne_eq, ← Finset.nonempty_iff_ne_empty, decide_eq_true_eq, reduceCtorEq,
        not_false_eq_true, true_and]
      constructor
      · rintro ⟨lock, hl⟩
        obtain ⟨hhead, hrest⟩ := mem_foldl_inter.mp hl
        refine ⟨lock, List.forall_mem_cons.mpr ⟨hhead, ?_⟩⟩
        intro order ho
        exact hrest _ (List.mem_map_of_mem ho)
      · rintro ⟨lock, hl⟩
        obtain ⟨hhead, hrest⟩ := List.forall_mem_cons.mp hl
        refine ⟨lock, mem_foldl_inter.mpr ⟨hhead, ?_⟩⟩
        intro others ho
        obtain ⟨order, hm, rfl⟩ := List.mem_map.mp ho
        exact hrest order hm

end Gate

-- The diagnostics so far are those of some cycles, no two of them with one key.
structure Emitted (facts : TUFacts) (found : Findings) (reported : List (List LockOrderFact)) :
    Prop where
  diagnostics : found.diagnostics = reported.map fun cycle => cycleDiagnostic cycle facts
  keys : ∀ key, key ∈ found.emittedCycleKeys ↔ key ∈ reported.map cycleKey
  nodup : (reported.map cycleKey).Nodup

section Emit

variable {facts : TUFacts} {found : Findings} {reported : List (List LockOrderFact)}

theorem Emitted.initial (facts : TUFacts) : Emitted facts {} [] :=
  ⟨rfl, fun _ => by simp, List.nodup_nil⟩

theorem Emitted.emitOnce (h : Emitted facts found reported) (cycle : List LockOrderFact) :
    ∃ reported', Emitted facts (emitOnce facts found cycle) reported' ∧
      reported ⊆ reported' ∧ (∀ other ∈ reported', other ∈ reported ∨ other = cycle) ∧
      cycleKey cycle ∈ reported'.map cycleKey := by
  unfold LockOrder.emitOnce
  split
  · rename_i hkey
    exact ⟨reported, h, List.Subset.refl _, fun _ => Or.inl, (h.keys _).mp hkey⟩
  · rename_i hkey
    rw [h.keys] at hkey
    refine ⟨reported ++ [cycle], ⟨?_, ?_, ?_⟩, List.subset_append_left _ _, ?_, ?_⟩
    · simp [h.diagnostics]
    · intro key
      simp only [Finset.mem_insert, h.keys, List.map_append, List.mem_append, List.map_cons,
        List.map_nil, List.mem_singleton]
      exact or_comm
    · rw [List.map_append, List.nodup_append]
      refine ⟨h.nodup, List.nodup_singleton _, ?_⟩
      intro key hk other ho
      rw [List.map_cons, List.map_nil, List.mem_singleton] at ho
      rintro rfl
      exact hkey (ho ▸ hk)
    · intro other ho
      rwa [List.mem_append, List.mem_singleton] at ho
    · simp

theorem Emitted.foldl_emitOnce (h : Emitted facts found reported)
    (cycles : List (List LockOrderFact)) :
    ∃ reported', Emitted facts (cycles.foldl (LockOrder.emitOnce facts) found) reported' ∧
      reported ⊆ reported' ∧ (∀ other ∈ reported', other ∈ reported ∨ other ∈ cycles) ∧
      ∀ cycle ∈ cycles, cycleKey cycle ∈ reported'.map cycleKey := by
  induction cycles generalizing found reported with
  | nil => exact ⟨reported, h, List.Subset.refl _, fun _ => Or.inl, fun _ h => by cases h⟩
  | cons cycle cycles ih =>
      obtain ⟨first, hfirst, hsub, hfrom, hkey⟩ := h.emitOnce cycle
      obtain ⟨all, hall, hsub', hfrom', hkeys⟩ := ih hfirst
      refine ⟨all, hall, List.Subset.trans hsub hsub', ?_, ?_⟩
      · intro other ho
        rcases hfrom' other ho with ho | ho
        · rcases hfrom other ho with ho | rfl
          · exact Or.inl ho
          · exact Or.inr (List.mem_cons_self ..)
        · exact Or.inr (List.mem_cons_of_mem _ ho)
      · refine List.forall_mem_cons.mpr ⟨?_, hkeys⟩
        exact List.map_subset _ hsub' hkey

end Emit

@[simp] theorem addressOrderedCycles_emitOnce (facts : TUFacts) (found : Findings)
    (cycle : List LockOrderFact) :
    (emitOnce facts found cycle).addressOrderedCycles = found.addressOrderedCycles := by
  unfold emitOnce
  split
  · rfl
  · rfl

@[simp] theorem addressOrderedKeys_emitOnce (facts : TUFacts) (found : Findings)
    (cycle : List LockOrderFact) :
    (emitOnce facts found cycle).addressOrderedKeys = found.addressOrderedKeys := by
  unfold emitOnce
  split
  · rfl
  · rfl

-- What judging some cycles leaves: each cycle without a common gate has its key among the reported
-- ones, or among those kept back when only lower addresses come first in it.
structure Judged (facts : TUFacts) (cycles : List (List LockOrderFact)) (found : Findings)
    (reported : List (List LockOrderFact)) : Prop where
  emitted : Emitted facts found reported
  mem_of_reported : ∀ cycle ∈ reported, cycle ∈ cycles ∧ hasCommonGateLock cycle = false ∧
    isAddressOrdered cycle = false
  reported_key : ∀ cycle ∈ cycles, hasCommonGateLock cycle = false →
    isAddressOrdered cycle = false → cycleKey cycle ∈ reported.map cycleKey
  keptKeys : ∀ key, key ∈ found.addressOrderedKeys ↔ key ∈ found.addressOrderedCycles.map cycleKey
  mem_of_kept : ∀ cycle ∈ found.addressOrderedCycles, cycle ∈ cycles ∧
    hasCommonGateLock cycle = false ∧ isAddressOrdered cycle = true
  kept_key : ∀ cycle ∈ cycles, hasCommonGateLock cycle = false → isAddressOrdered cycle = true →
    cycleKey cycle ∈ found.addressOrderedCycles.map cycleKey

section Judge

variable {facts : TUFacts} {found : Findings} {reported cycles : List (List LockOrderFact)}

theorem Judged.initial (facts : TUFacts) : Judged facts [] {} [] where
  emitted := Emitted.initial facts
  mem_of_reported := by simp
  reported_key := by simp
  keptKeys := by simp
  mem_of_kept := by simp
  kept_key := by simp

theorem forall_mem_concat {α : Type*} {p : α → Prop} {elements : List α} {last : α} :
    (∀ element ∈ elements ++ [last], p element) ↔ (∀ element ∈ elements, p element) ∧ p last := by
  rw [List.forall_mem_append, List.forall_mem_singleton]

theorem Judged.closeCycle (h : Judged facts cycles found reported) (cycle : List LockOrderFact) :
    ∃ reported', Judged facts (cycles ++ [cycle]) (closeCycle facts found cycle) reported' := by
  have hreported : ∀ other ∈ reported, other ∈ cycles ++ [cycle] ∧
      hasCommonGateLock other = false ∧ isAddressOrdered other = false := fun other ho =>
    ⟨List.mem_append_left _ (h.mem_of_reported other ho).1, (h.mem_of_reported other ho).2⟩
  have hkept : ∀ other ∈ found.addressOrderedCycles, other ∈ cycles ++ [cycle] ∧
      hasCommonGateLock other = false ∧ isAddressOrdered other = true := fun other ho =>
    ⟨List.mem_append_left _ (h.mem_of_kept other ho).1, (h.mem_of_kept other ho).2⟩
  unfold LockOrder.closeCycle
  split
  · rename_i hgate
    refine ⟨reported, h.emitted, hreported, ?_, h.keptKeys, hkept, ?_⟩
    · exact forall_mem_concat.mpr ⟨h.reported_key, fun hno => by simp [hgate] at hno⟩
    · exact forall_mem_concat.mpr ⟨h.kept_key, fun hno => by simp [hgate] at hno⟩
  · rename_i hgate
    rw [Bool.not_eq_true] at hgate
    split
    · rename_i haddress
      rw [Bool.not_eq_true'] at haddress
      obtain ⟨reported', hemitted, hsub, hfrom, hkey⟩ := h.emitted.emitOnce cycle
      refine ⟨reported', hemitted, ?_, ?_, ?_, ?_, ?_⟩
      · intro other ho
        rcases hfrom other ho with ho | rfl
        · exact hreported other ho
        · exact ⟨by simp, hgate, haddress⟩
      · refine forall_mem_concat.mpr ⟨fun other ho hno hna => ?_, fun _ _ => hkey⟩
        exact List.map_subset _ hsub (h.reported_key other ho hno hna)
      · simpa using h.keptKeys
      · simpa using hkept
      · rw [addressOrderedCycles_emitOnce]
        exact forall_mem_concat.mpr ⟨h.kept_key, fun _ hno => by simp [haddress] at hno⟩
    · rename_i haddress
      rw [Bool.not_eq_true', Bool.not_eq_false] at haddress
      split
      · rename_i hseen
        refine ⟨reported, h.emitted, hreported, ?_, h.keptKeys, hkept, ?_⟩
        · exact forall_mem_concat.mpr ⟨h.reported_key, fun _ hno => by simp [haddress] at hno⟩
        · exact forall_mem_concat.mpr ⟨h.kept_key, fun _ _ => (h.keptKeys _).mp hseen⟩
      · refine ⟨reported, ⟨h.emitted.diagnostics, h.emitted.keys, h.emitted.nodup⟩, hreported, ?_,
          ?_, ?_, ?_⟩
        · exact forall_mem_concat.mpr ⟨h.reported_key, fun _ hno => by simp [haddress] at hno⟩
        · intro key
          simp only [Finset.mem_insert, h.keptKeys, List.map_append, List.mem_append, List.map_cons,
            List.map_nil, List.mem_singleton]
          exact or_comm
        · exact forall_mem_concat.mpr ⟨hkept, by simp, hgate, haddress⟩
        · refine forall_mem_concat.mpr ⟨fun other ho hno ha => ?_, fun _ _ => by simp⟩
          rw [List.map_append]
          exact List.mem_append_left _ (h.kept_key other ho hno ha)

theorem judged_foldl (facts : TUFacts) (cycles : List (List LockOrderFact)) :
    ∃ reported, Judged facts cycles (cycles.foldl (closeCycle facts) {}) reported := by
  induction cycles using List.reverseRecOn with
  | nil => exact ⟨[], Judged.initial facts⟩
  | append_singleton cycles cycle ih =>
      obtain ⟨reported, h⟩ := ih
      rw [List.foldl_append]
      exact h.closeCycle cycle

end Judge

end ConcurrencyAnalyzer.LockOrder
