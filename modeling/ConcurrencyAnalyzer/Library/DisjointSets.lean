import Mathlib.Logic.Function.Basic
import Mathlib.Logic.Relation
import Mathlib.Order.Bounds.Basic

namespace ConcurrencyAnalyzer.Library.DisjointSets

open Relation Function

variable {α κ : Type*} [DecidableEq α]

-- The root above an element; an element without a parent is its own.
def find (parent : α → α) : Nat → α → α
  | 0, element => element
  | fuel + 1, element =>
      if parent element = element then element else find parent fuel (parent element)

-- The same, with every element on the way hung under the root.
def compress (parent : α → α) : Nat → α → α × (α → α)
  | 0, element => (element, parent)
  | fuel + 1, element =>
      if parent element = element then (element, parent)
      else
        let (root, shortened) := compress parent fuel (parent element)
        (root, update shortened element root)

-- No path is longer than `depth`, and the root above an element is `rep` of it.
structure Represents (parent : α → α) (depth : Nat) (rep : α → α) : Prop where
  found : ∀ element, find parent depth element = rep element
  root : ∀ element, parent (rep element) = rep element

variable {parent rep : α → α} {depth : Nat}

theorem find_of_root {element : α} (h : parent element = element) (fuel : Nat) :
    find parent fuel element = element := by
  cases fuel with
  | zero => rfl
  | succ fuel => simp [find, h]

theorem find_succ_of_root (element : α) (fuel : Nat)
    (h : parent (find parent fuel element) = find parent fuel element) :
    find parent (fuel + 1) element = find parent fuel element := by
  induction fuel generalizing element with
  | zero => exact find_of_root h 1
  | succ fuel ih =>
      by_cases hroot : parent element = element
      · rw [find_of_root hroot, find_of_root hroot]
      · have hnext : find parent (fuel + 1) element = find parent fuel (parent element) := by
          simp [find, hroot]
        rw [hnext] at h ⊢
        rw [find, if_neg hroot]
        exact ih (parent element) h

theorem Represents.find_of_le (h : Represents parent depth rep) {fuel : Nat} (hfuel : depth ≤ fuel)
    (element : α) : find parent fuel element = rep element := by
  induction fuel, hfuel using Nat.le_induction with
  | base => exact h.found element
  | succ fuel _ ih =>
      rw [find_succ_of_root, ih]
      rw [ih]
      exact h.root element

theorem Represents.rep_of_root (h : Represents parent depth rep) {element : α}
    (hroot : parent element = element) : rep element = element := by
  rw [← h.found, find_of_root hroot]

theorem Represents.rep_rep (h : Represents parent depth rep) (element : α) :
    rep (rep element) = rep element :=
  h.rep_of_root (h.root element)

theorem Represents.rep_parent (h : Represents parent depth rep) (element : α) :
    rep (parent element) = rep element := by
  by_cases hroot : parent element = element
  · rw [hroot]
  · rw [← h.found (parent element), ← h.find_of_le (Nat.le_succ depth) element, find,
      if_neg hroot]

theorem represents_id : Represents (id : α → α) 0 id where
  found _ := rfl
  root _ := rfl

-- One root hung under another adds one to the paths that ended at it.
theorem Represents.link (h : Represents parent depth rep) {loser winner : α}
    (hloser : parent loser = loser) (hwinner : parent winner = winner) (hne : loser ≠ winner) :
    Represents (update parent loser winner) (depth + 1)
      (fun element => if rep element = loser then winner else rep element) := by
  have hkept : ∀ element, element ≠ loser → update parent loser winner element = parent element :=
    fun element hother => update_of_ne hother ..
  have hwinnerRoot : update parent loser winner winner = winner := by
    rw [hkept winner hne.symm, hwinner]
  have hstep : ∀ fuel element, find parent fuel element = rep element →
      find (update parent loser winner) (fuel + 1) element =
        if rep element = loser then winner else rep element := by
    intro fuel
    induction fuel with
    | zero =>
        intro element hfound
        have helement : rep element = element := hfound.symm
        by_cases hsame : element = loser
        · rw [helement, if_pos hsame, find, hsame, update_self, if_neg hne.symm]
          exact find_of_root hwinnerRoot _
        · have hroot : parent element = element := by rw [← helement, h.root]
          rw [helement, if_neg hsame, find_of_root]
          rw [hkept element hsame, hroot]
    | succ fuel ih =>
        intro element hfound
        by_cases hroot : parent element = element
        · rw [h.rep_of_root hroot]
          by_cases hsame : element = loser
          · rw [if_pos hsame, find, hsame, update_self, if_neg hne.symm]
            exact find_of_root hwinnerRoot _
          · rw [if_neg hsame, find_of_root]
            rw [hkept element hsame, hroot]
        · have hother : element ≠ loser := fun hsame => hroot (hsame ▸ hloser)
          rw [find, if_neg hroot] at hfound
          rw [find, hkept element hother, if_neg hroot, ← h.rep_parent element]
          exact ih (parent element) (hfound.trans (h.rep_parent element).symm)
  constructor
  · exact fun element => hstep depth element (h.found element)
  · intro element
    by_cases hsame : rep element = loser
    · rw [if_pos hsame, hwinnerRoot]
    · rw [if_neg hsame, hkept _ hsame, h.root]

-- An element hung under its root stays where it belongs, and so do all others.
theorem Represents.shorten (h : Represents parent depth rep) (changed : α) :
    Represents (update parent changed (rep changed)) depth rep := by
  have hroot : ∀ element, update parent changed (rep changed) (rep element) = rep element := by
    intro element
    by_cases hsame : rep element = changed
    · rw [hsame, update_self, ← hsame, h.rep_rep]
    · rw [update_of_ne hsame, h.root]
  have hstep : ∀ fuel element, find parent fuel element = rep element →
      find (update parent changed (rep changed)) fuel element = rep element := by
    intro fuel
    induction fuel with
    | zero => exact fun element hfound => hfound
    | succ fuel ih =>
        intro element hfound
        by_cases hsame : element = changed
        · subst hsame
          rw [find, update_self]
          by_cases hown : rep element = element
          · rw [if_pos hown, hown]
          · rw [if_neg hown, find_of_root (hroot element)]
        · rw [find, update_of_ne hsame]
          by_cases hown : parent element = element
          · rw [if_pos hown, h.rep_of_root hown]
          · rw [find, if_neg hown] at hfound
            rw [if_neg hown, ← h.rep_parent element]
            exact ih (parent element) (hfound.trans (h.rep_parent element).symm)
  exact ⟨fun element => hstep depth element (h.found element), hroot⟩

theorem Represents.compress (h : Represents parent depth rep) {fuel : Nat} (hfuel : depth ≤ fuel)
    (element : α) :
    (compress parent fuel element).1 = rep element ∧
      Represents (compress parent fuel element).2 depth rep := by
  have hstep : ∀ fuel element, find parent fuel element = rep element →
      (DisjointSets.compress parent fuel element).1 = rep element ∧
        Represents (DisjointSets.compress parent fuel element).2 depth rep := by
    intro fuel
    induction fuel with
    | zero => exact fun element hfound => ⟨hfound, h⟩
    | succ fuel ih =>
        intro element hfound
        rw [DisjointSets.compress]
        by_cases hroot : parent element = element
        · rw [if_pos hroot]
          exact ⟨(h.rep_of_root hroot).symm, h⟩
        · rw [find, if_neg hroot] at hfound
          obtain ⟨hfirst, hsecond⟩ :=
            ih (parent element) (hfound.trans (h.rep_parent element).symm)
          rw [h.rep_parent] at hfirst
          rw [if_neg hroot]
          refine ⟨hfirst, ?_⟩
          show Represents (update _ element _) depth rep
          rw [hfirst]
          exact hsecond.shorten element
  exact hstep fuel element (h.find_of_le hfuel element)

-- The sets of the elements that `related` connects, each under its least element by `key`.
structure Partition [LinearOrder κ] (related : α → α → Prop) (key : α → κ) (parent : α → α)
    (depth : Nat) (rep : α → α) : Prop extends Represents parent depth rep where
  connected : ∀ element, EqvGen related element (rep element)
  same : ∀ element other, related element other → rep element = rep other
  least : ∀ element, key (rep element) ≤ key element

section Partition

variable [LinearOrder κ] {key : α → κ} {related : α → α → Prop}

theorem Partition.rep_eq_iff (h : Partition related key parent depth rep) (element other : α) :
    rep element = rep other ↔ EqvGen related element other := by
  constructor
  · intro hsame
    have hback := (h.connected other).symm
    rw [← hsame] at hback
    exact (h.connected element).trans _ _ _ hback
  · intro hconnected
    induction hconnected with
    | rel element other hrelated => exact h.same element other hrelated
    | refl => rfl
    | symm _ _ _ ih => exact ih.symm
    | trans _ _ _ _ _ ih ih' => exact ih.trans ih'

theorem Partition.le (h : Partition related key parent depth rep) {element other : α}
    (hconnected : EqvGen related element other) : key (rep element) ≤ key other := by
  rw [(h.rep_eq_iff element other).mpr hconnected]
  exact h.least other

-- The least element of a set is its only one: how the sets came about does not show.
theorem Partition.unique (h : Partition related key parent depth rep) {parent' rep' : α → α}
    {depth' : Nat} (h' : Partition related key parent' depth' rep') (hkey : Injective key) :
    rep = rep' := by
  funext element
  apply hkey
  exact le_antisymm (h.le (h'.connected element)) (h'.le (h.connected element))

theorem Partition.congr (h : Partition related key parent depth rep) {other : α → α → Prop}
    (hsame : ∀ first second, related first second ↔ other first second) :
    Partition other key parent depth rep := by
  have heq : related = other := by
    funext first second
    exact propext (hsame first second)
  exact heq ▸ h

theorem Partition.mono (h : Partition related key parent depth rep) {more : Nat}
    (hmore : depth ≤ more) : Partition related key parent more rep where
  found := h.find_of_le hmore
  root := h.root
  connected := h.connected
  same := h.same
  least := h.least

theorem partition_id (key : α → κ) : Partition (fun _ _ => False) key id 0 (id : α → α) where
  toRepresents := represents_id
  connected := EqvGen.refl
  same _ _ h := h.elim
  least _ := le_refl _

-- The root of the two sets that comes later in the order is hung under the other.
theorem Partition.link (h : Partition related key parent depth rep) {first second loser winner : α}
    (hroots : (loser = rep first ∧ winner = rep second) ∨ (loser = rep second ∧ winner = rep first))
    (hne : rep first ≠ rep second) (hkey : key winner ≤ key loser) :
    Partition (fun element other => related element other ∨ (element = first ∧ other = second)) key
      (update parent loser winner) (depth + 1)
      (fun element => if rep element = loser then winner else rep element) := by
  have hloser : rep loser = loser := by
    rcases hroots with ⟨hloser, _⟩ | ⟨hloser, _⟩ <;> rw [hloser, h.rep_rep]
  have hends : loser ≠ winner := by
    rcases hroots with ⟨hloser, hwinner⟩ | ⟨hloser, hwinner⟩
    · rwa [hloser, hwinner]
    · rw [hloser, hwinner]
      exact hne.symm
  have hparent : parent loser = loser ∧ parent winner = winner := by
    rcases hroots with ⟨hloser, hwinner⟩ | ⟨hloser, hwinner⟩ <;>
      exact ⟨by rw [hloser, h.root], by rw [hwinner, h.root]⟩
  have holder : ∀ {element other}, EqvGen related element other →
      EqvGen (fun element other => related element other ∨ (element = first ∧ other = second))
        element other :=
    fun hconnected => hconnected.mono fun _ _ => Or.inl
  have hjoined : EqvGen (fun element other => related element other ∨
      (element = first ∧ other = second)) loser winner := by
    have hends : EqvGen (fun element other => related element other ∨
        (element = first ∧ other = second)) (rep first) (rep second) :=
      ((holder (h.connected first)).symm.trans _ _ _ (.rel _ _ (Or.inr ⟨rfl, rfl⟩))).trans _ _ _
        (holder (h.connected second))
    rcases hroots with ⟨hloser, hwinner⟩ | ⟨hloser, hwinner⟩
    · rwa [hloser, hwinner]
    · rw [hloser, hwinner]
      exact hends.symm
  constructor
  case toRepresents => exact h.toRepresents.link hparent.1 hparent.2 hends
  case connected =>
    intro element
    by_cases hmoved : rep element = loser
    · rw [if_pos hmoved]
      refine (holder (h.connected element)).trans _ _ _ ?_
      rwa [hmoved]
    · rw [if_neg hmoved]
      exact holder (h.connected element)
  case same =>
    rintro element other (hrelated | ⟨rfl, rfl⟩)
    · rw [h.same element other hrelated]
    · rcases hroots with ⟨hloser, hwinner⟩ | ⟨hloser, hwinner⟩
      · rw [if_pos hloser.symm, if_neg (fun hsame => hne (hloser ▸ hsame.symm)), hwinner]
      · rw [if_neg (fun hsame => hne (hloser ▸ hsame)), if_pos hloser.symm, hwinner]
  case least =>
    intro element
    by_cases hmoved : rep element = loser
    · rw [if_pos hmoved]
      exact le_trans hkey (hmoved ▸ h.least element)
    · rw [if_neg hmoved]
      exact h.least element

-- A pair already in one set changes nothing.
theorem Partition.known (h : Partition related key parent depth rep) {first second : α}
    (hsame : rep first = rep second) :
    Partition (fun element other => related element other ∨ (element = first ∧ other = second)) key
      parent depth rep where
  toRepresents := h.toRepresents
  connected element := (h.connected element).mono fun _ _ => Or.inl
  same := by
    rintro element other (hrelated | ⟨rfl, rfl⟩)
    · exact h.same element other hrelated
    · exact hsame
  least := h.least

end Partition

end ConcurrencyAnalyzer.Library.DisjointSets
