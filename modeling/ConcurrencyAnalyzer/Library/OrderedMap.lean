import Mathlib.Data.List.Pairwise
import Mathlib.Order.Lattice
import Mathlib.Data.List.Basic

namespace ConcurrencyAnalyzer.Library

-- A map kept in the order of its keys, each of which it holds once.
structure OrderedMap (κ α : Type*) [LinearOrder κ] where
  entries : List (κ × α)
  sorted : entries.Pairwise fun entry other => entry.1 < other.1

namespace OrderedMap

variable {κ α : Type*} [LinearOrder κ]

def empty : OrderedMap κ α := ⟨[], List.Pairwise.nil⟩

def keys (map : OrderedMap κ α) : List κ := map.entries.map Prod.fst

def find (map : OrderedMap κ α) (key : κ) : Option α :=
  (map.entries.find? (·.1 = key)).map Prod.snd

-- Replaces the value under a key, or inserts one in its place.
def alterEntries (key : κ) (update : Option α → α) : List (κ × α) → List (κ × α)
  | [] => [(key, update none)]
  | entry :: rest =>
      if entry.1 < key then entry :: alterEntries key update rest
      else if entry.1 = key then (key, update (some entry.2)) :: rest
      else (key, update none) :: entry :: rest

theorem key_mem_alterEntries {key : κ} {update : Option α → α} {entries : List (κ × α)}
    {entry : κ × α} (h : entry ∈ alterEntries key update entries) :
    entry.1 = key ∨ entry ∈ entries := by
  induction entries with
  | nil =>
      rw [alterEntries, List.mem_singleton] at h
      exact Or.inl (congrArg Prod.fst h)
  | cons head rest ih =>
      unfold alterEntries at h
      split at h
      · rcases List.mem_cons.mp h with rfl | h
        · exact Or.inr (List.mem_cons_self ..)
        · rcases ih h with h | h
          · exact Or.inl h
          · exact Or.inr (List.mem_cons_of_mem _ h)
      · split at h
        · rcases List.mem_cons.mp h with h | h
          · exact Or.inl (congrArg Prod.fst h)
          · exact Or.inr (List.mem_cons_of_mem _ h)
        · rcases List.mem_cons.mp h with h | h
          · exact Or.inl (congrArg Prod.fst h)
          · exact Or.inr h

theorem sorted_alterEntries (key : κ) (update : Option α → α) (entries : List (κ × α))
    (h : entries.Pairwise fun entry other => entry.1 < other.1) :
    (alterEntries key update entries).Pairwise fun entry other => entry.1 < other.1 := by
  induction entries with
  | nil => exact List.pairwise_singleton _ _
  | cons head rest ih =>
      obtain ⟨hhead, hrest⟩ := List.pairwise_cons.mp h
      unfold alterEntries
      split
      · rename_i hlt
        refine List.pairwise_cons.mpr ⟨?_, ih hrest⟩
        intro entry he
        rcases key_mem_alterEntries he with rfl | he
        · exact hlt
        · exact hhead entry he
      · rename_i hge
        split
        · rename_i heq
          refine List.pairwise_cons.mpr ⟨?_, hrest⟩
          intro entry he
          exact heq ▸ hhead entry he
        · rename_i hne
          have hlt : key < head.1 := lt_of_le_of_ne (not_lt.mp hge) (Ne.symm hne)
          refine List.pairwise_cons.mpr ⟨?_, h⟩
          intro entry he
          rcases List.mem_cons.mp he with rfl | he
          · exact hlt
          · exact hlt.trans (hhead entry he)

def alter (map : OrderedMap κ α) (key : κ) (update : Option α → α) : OrderedMap κ α :=
  ⟨alterEntries key update map.entries, sorted_alterEntries key update map.entries map.sorted⟩

def mapValues {β : Type*} (map : OrderedMap κ α) (change : α → β) : OrderedMap κ β :=
  ⟨map.entries.map fun entry => (entry.1, change entry.2),
    List.pairwise_map.mpr (map.sorted.imp fun h => h)⟩

theorem find_mapValues {β : Type*} (map : OrderedMap κ α) (change : α → β) (key : κ) :
    (map.mapValues change).find key = (map.find key).map change := by
  simp only [find, mapValues, List.find?_map, Option.map_map]
  rfl

theorem keys_mapValues {β : Type*} (map : OrderedMap κ α) (change : α → β) :
    (map.mapValues change).keys = map.keys := by
  simp only [keys, mapValues, List.map_map]
  rfl

theorem alterEntries_map {β : Type*} {key : κ} {update : Option α → α} {updateAfter : Option β → β}
    {change : α → β} (h : ∀ present, updateAfter (present.map change) = change (update present))
    (entries : List (κ × α)) :
    alterEntries key updateAfter (entries.map fun entry => (entry.1, change entry.2)) =
      (alterEntries key update entries).map fun entry => (entry.1, change entry.2) := by
  induction entries with
  | nil => exact congrArg (fun value => [(key, value)]) (h none)
  | cons head rest ih =>
      unfold alterEntries
      rw [List.map_cons]
      dsimp only
      split
      · rw [ih, List.map_cons]
      · split
        · rw [List.map_cons]
          exact congrArg (fun value => (key, value) :: _) (h (some head.2))
        · rw [List.map_cons, List.map_cons]
          exact congrArg (fun value => (key, value) :: _) (h none)

-- An update commutes with a change of all values that it commutes with.
theorem alter_mapValues {β : Type*} (map : OrderedMap κ α) {key : κ} {update : Option α → α}
    {updateAfter : Option β → β} {change : α → β}
    (h : ∀ present, updateAfter (present.map change) = change (update present)) :
    (map.mapValues change).alter key updateAfter = (map.alter key update).mapValues change := by
  unfold alter mapValues
  congr 1
  exact alterEntries_map h map.entries

theorem keys_nodup (map : OrderedMap κ α) : map.keys.Nodup := by
  rw [keys, List.Nodup, List.pairwise_map]
  exact map.sorted.imp fun h => h.ne

theorem find_eq_some_iff (map : OrderedMap κ α) (key : κ) (value : α) :
    map.find key = some value ↔ (key, value) ∈ map.entries := by
  obtain ⟨entries, hsorted⟩ := map
  dsimp only [find]
  induction entries with
  | nil => simp
  | cons head rest ih =>
      obtain ⟨hhead, hrest⟩ := List.pairwise_cons.mp hsorted
      by_cases hk : head.1 = key
      · have hnot : (key, value) ∉ rest := fun h => absurd (hhead _ h) (by simp [hk])
        rw [List.find?_cons_of_pos (by simpa using hk), List.mem_cons, or_iff_left hnot]
        subst hk
        simp [Prod.ext_iff, eq_comm]
      · rw [List.find?_cons_of_neg (by simpa using hk), ih hrest, List.mem_cons, or_iff_right]
        rintro rfl
        exact hk rfl

theorem mem_keys_iff (map : OrderedMap κ α) (key : κ) :
    key ∈ map.keys ↔ ∃ value, (key, value) ∈ map.entries := by
  simp [keys]

-- After an update, a key holds its new value and every other key what it held.
theorem mem_alter (map : OrderedMap κ α) (key : κ) (update : Option α → α) (entry : κ × α) :
    entry ∈ (map.alter key update).entries ↔
      (entry.1 ≠ key ∧ entry ∈ map.entries) ∨ entry = (key, update (map.find key)) := by
  obtain ⟨entries, hsorted⟩ := map
  dsimp only [alter, find]
  induction entries with
  | nil => simp [alterEntries]
  | cons head rest ih =>
      obtain ⟨hhead, hrest⟩ := List.pairwise_cons.mp hsorted
      unfold alterEntries
      split
      · rename_i hlt
        rw [List.mem_cons, ih hrest, List.find?_cons_of_neg (by simpa using hlt.ne), List.mem_cons]
        constructor
        · rintro (rfl | ⟨hne, hm⟩ | h)
          · exact Or.inl ⟨hlt.ne, Or.inl rfl⟩
          · exact Or.inl ⟨hne, Or.inr hm⟩
          · exact Or.inr h
        · rintro (⟨hne, rfl | hm⟩ | h)
          · exact Or.inl rfl
          · exact Or.inr (Or.inl ⟨hne, hm⟩)
          · exact Or.inr (Or.inr h)
      · rename_i hge
        have hafter : ∀ other ∈ rest, other.1 ≠ key := fun other ho =>
          (lt_of_le_of_lt (not_lt.mp hge) (hhead other ho)).ne'
        split
        · rename_i heq
          rw [List.find?_cons_of_pos (by simpa using heq), List.mem_cons, List.mem_cons]
          constructor
          · rintro (rfl | hm)
            · exact Or.inr rfl
            · exact Or.inl ⟨hafter entry hm, Or.inr hm⟩
          · rintro (⟨hne, rfl | hm⟩ | h)
            · exact absurd heq hne
            · exact Or.inr hm
            · exact Or.inl h
        · rename_i hne
          have hnone : (head :: rest).find? (·.1 = key) = none := by
            rw [List.find?_eq_none]
            intro other ho
            rcases List.mem_cons.mp ho with rfl | ho
            · simpa using hne
            · simpa using hafter other ho
          rw [hnone, List.mem_cons]
          constructor
          · rintro (rfl | hm)
            · exact Or.inr rfl
            · refine Or.inl ⟨?_, hm⟩
              rcases List.mem_cons.mp hm with rfl | hm
              · exact hne
              · exact hafter entry hm
          · rintro (⟨_, hm⟩ | h)
            · exact Or.inr hm
            · exact Or.inl h

theorem mem_keys_alter (map : OrderedMap κ α) (key : κ) (update : Option α → α) (other : κ) :
    other ∈ (map.alter key update).keys ↔ other = key ∨ other ∈ map.keys := by
  rw [mem_keys_iff, mem_keys_iff]
  simp only [mem_alter]
  constructor
  · rintro ⟨value, ⟨_, hm⟩ | h⟩
    · exact Or.inr ⟨value, hm⟩
    · exact Or.inl (congrArg Prod.fst h)
  · rintro (rfl | ⟨value, hm⟩)
    · exact ⟨_, Or.inr rfl⟩
    · by_cases h : other = key
      · subst h
        exact ⟨_, Or.inr rfl⟩
      · exact ⟨value, Or.inl ⟨h, hm⟩⟩

theorem find_alter (map : OrderedMap κ α) (key : κ) (update : Option α → α) (other : κ) :
    (map.alter key update).find other =
      if other = key then some (update (map.find key)) else map.find other := by
  apply Option.ext
  intro value
  rw [find_eq_some_iff, mem_alter]
  by_cases h : other = key
  · simp [h, eq_comm]
  · simp [h, find_eq_some_iff]

-- What a fold that alters one key an element leaves under a key comes from the elements of that key.
theorem find_foldl_alter {β : Type*} (keyOf : β → κ) (update : β → Option α → α)
    (elements : List β) (map : OrderedMap κ α) (key : κ) :
    (elements.foldl (fun map element => map.alter (keyOf element) (update element)) map).find key =
      (elements.filter fun element => keyOf element = key).foldl
        (fun present element => some (update element present)) (map.find key) := by
  induction elements generalizing map with
  | nil => rfl
  | cons element rest ih =>
      rw [List.foldl_cons, ih, find_alter]
      by_cases h : keyOf element = key
      · simp [h]
      · simp [h, Ne.symm h]

end OrderedMap

end ConcurrencyAnalyzer.Library
