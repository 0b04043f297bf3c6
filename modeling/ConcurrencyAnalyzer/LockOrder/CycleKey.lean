import ConcurrencyAnalyzer.LockOrder.Analyzer
import ConcurrencyAnalyzer.Library.Delimiter
import Mathlib.Data.List.Rotate
import Mathlib.Data.List.Zip
import Mathlib.Algebra.Order.BigOperators.Group.List
import Mathlib.Algebra.GroupWithZero.Nat

namespace ConcurrencyAnalyzer.LockOrder

-- A text holding neither the mark between two locks nor the one between two orders.
def CleanField (field : List Char) : Prop :=
  ¬['-', '>'] <:+: field ∧ ¬['|', '|'] <:+: field

def CleanLockId (lockId : String) : Prop := CleanField lockId.toList

theorem CleanField.tail {symbol : Char} {field : List Char} (h : CleanField (symbol :: field)) :
    CleanField field :=
  ⟨fun hi => h.1 (List.infix_cons hi), fun hi => h.2 (List.infix_cons hi)⟩

abbrev EdgeText := List Char × List Char

def EdgeText.Clean (edge : EdgeText) : Prop := CleanField edge.1 ∧ CleanField edge.2

def keyChars (edges : List EdgeText) : List Char :=
  edges.flatMap fun edge => edge.1 ++ '-' :: '>' :: (edge.2 ++ ['|', '|'])

theorem keyChars_cons (edge : EdgeText) (edges : List EdgeText) :
    keyChars (edge :: edges) =
      edge.1 ++ '-' :: '>' :: (edge.2 ++ '|' :: '|' :: keyChars edges) := by
  simp [keyChars]

theorem length_keyChars (edges : List EdgeText) :
    (keyChars edges).length =
      (edges.map (·.1.length)).sum + (edges.map (·.2.length)).sum + 4 * edges.length := by
  induction edges with
  | nil => rfl
  | cons edge edges ih =>
      rw [keyChars_cons]
      simp only [List.length_append, List.length_cons, List.map_cons, List.sum_cons, ih]
      omega

-- Between two orders, a bar may belong to the lock before it or to the lock after it.
def SameUpToBar (edge other : EdgeText) : Prop :=
  (edge.1 = other.1 ∨ edge.1 = '|' :: other.1 ∨ other.1 = '|' :: edge.1) ∧
    (edge.2 = other.2 ∨ edge.2 = other.2 ++ ['|'] ∨ other.2 = edge.2 ++ ['|'])

-- A key starting with a bar is the key of the same orders without it, and the bar.
theorem keyChars_eq_bar_cons {edges : List EdgeText} {rest : List Char}
    (h : keyChars edges = '|' :: rest) :
    ∃ field second tail, edges = ('|' :: field, second) :: tail ∧
      keyChars ((field, second) :: tail) = rest := by
  cases edges with
  | nil => simp [keyChars] at h
  | cons edge tail =>
      obtain ⟨first, second⟩ := edge
      rw [keyChars_cons] at h
      cases first with
      | nil => simp at h
      | cons symbol field =>
          simp only [List.cons_append, List.cons.injEq] at h
          obtain ⟨rfl, h⟩ := h
          exact ⟨field, second, tail, rfl, by rw [keyChars_cons, ← h]⟩

theorem sameUpToBar_of_keyChars_eq (count : Nat) {edges others : List EdgeText}
    (hcount : edges.length = count) (he : ∀ edge ∈ edges, edge.Clean)
    (ho : ∀ edge ∈ others, edge.Clean) (h : keyChars edges = keyChars others) :
    List.Forall₂ SameUpToBar edges others ∧
      edges.head?.map Prod.fst = others.head?.map Prod.fst := by
  induction count generalizing edges others with
  | zero =>
      rw [List.length_eq_zero_iff] at hcount
      subst hcount
      cases others with
      | nil => exact ⟨List.Forall₂.nil, rfl⟩
      | cons edge others =>
          have hl := congrArg List.length h
          rw [keyChars_cons] at hl
          simp [keyChars] at hl
  | succ count ih =>
      obtain ⟨⟨first, second⟩, edges, rfl⟩ := List.exists_cons_of_length_eq_add_one hcount
      cases others with
      | nil =>
          have hl := congrArg List.length h
          rw [keyChars_cons] at hl
          simp [keyChars] at hl
      | cons other others =>
          obtain ⟨first', second'⟩ := other
          have hcount' : edges.length = count := by simpa using hcount
          obtain ⟨hedge, hedges⟩ := List.forall_mem_cons.mp he
          obtain ⟨hother, hothers⟩ := List.forall_mem_cons.mp ho
          rw [keyChars_cons, keyChars_cons] at h
          obtain ⟨hf, hrest⟩ :=
            Library.Delimiter.split_pair (by decide) hedge.1.1 hother.1.1 h
          dsimp only at hf
          subst hf
          rcases Library.Delimiter.split_double hedge.2.2 hother.2.2 hrest with
            ⟨hs, hk⟩ | ⟨hs, hk⟩ | ⟨hs, hk⟩
          · obtain ⟨htail, _⟩ := ih hcount' hedges hothers hk
            exact ⟨List.Forall₂.cons ⟨Or.inl rfl, Or.inl hs⟩ htail, rfl⟩
          · obtain ⟨field, text, tail, rfl, hbar⟩ := keyChars_eq_bar_cons hk
            obtain ⟨htext, ht⟩ := List.forall_mem_cons.mp hothers
            have hclean : ∀ edge ∈ (field, text) :: tail, EdgeText.Clean edge :=
              List.forall_mem_cons.mpr ⟨⟨htext.1.tail, htext.2⟩, ht⟩
            obtain ⟨htail, hhead⟩ := ih hcount' hedges hclean hbar.symm
            cases htail with
            | cons hfirst htail =>
                simp only [List.head?_cons, Option.map_some, Option.some.injEq] at hhead
                exact ⟨List.Forall₂.cons ⟨Or.inl rfl, Or.inr (Or.inl hs)⟩
                  (List.Forall₂.cons ⟨Or.inr (Or.inr (by rw [hhead])), hfirst.2⟩ htail), rfl⟩
          · obtain ⟨field, text, tail, rfl, hbar⟩ := keyChars_eq_bar_cons hk
            obtain ⟨htext, ht⟩ := List.forall_mem_cons.mp hedges
            have hclean : ∀ edge ∈ (field, text) :: tail, EdgeText.Clean edge :=
              List.forall_mem_cons.mpr ⟨⟨htext.1.tail, htext.2⟩, ht⟩
            obtain ⟨htail, hhead⟩ := ih (by simpa using hcount') hclean hothers hbar
            cases htail with
            | cons hfirst htail =>
                simp only [List.head?_cons, Option.map_some, Option.some.injEq] at hhead
                exact ⟨List.Forall₂.cons ⟨Or.inl rfl, Or.inr (Or.inr hs)⟩
                  (List.Forall₂.cons ⟨Or.inr (Or.inl (by rw [hhead])), hfirst.2⟩ htail), rfl⟩

-- Where the first symbol of a lock stands against the bar. The names of the orders are sorted, so
-- along a key this never decreases.
def barRank : List Char → Nat
  | [] => 0
  | symbol :: _ => if symbol < '|' then 0 else if symbol = '|' then 1 else 2

theorem barRank_append_bar (field : List Char) : (barRank (field ++ ['|']) = 2) ↔ (barRank field = 2) := by
  cases field with
  | nil => simp [barRank]
  | cons symbol field => simp [barRank]

theorem barRank_bar_cons (field : List Char) : barRank ('|' :: field) = 1 := by
  simp [barRank]

theorem barRank_ne_one {field : List Char} (h : CleanField ('|' :: field)) : barRank field ≠ 1 := by
  cases field with
  | nil => simp [barRank]
  | cons symbol field =>
      have hs : symbol ≠ '|' := by
        rintro rfl
        exact h.2 ⟨[], field, rfl⟩
      simp only [barRank, hs, if_false]
      split <;> simp

theorem SameUpToBar.high_iff {edge other : EdgeText} (h : SameUpToBar edge other) :
    (barRank edge.2 = 2) ↔ (barRank other.2 = 2) := by
  rcases h.2 with h | h | h
  · rw [h]
  · rw [h, barRank_append_bar]
  · rw [h, barRank_append_bar]

section Sorted

variable {edges others : List EdgeText}

def RankSorted (edges : List EdgeText) : Prop :=
  edges.Pairwise fun edge other => barRank edge.1 ≤ barRank other.1

def Balanced (edges : List EdgeText) : Prop :=
  (edges.map Prod.fst).Perm (edges.map Prod.snd)

theorem Balanced.sum_eq (hb : Balanced edges) (weight : List Char → Nat) :
    (edges.map (weight ·.1)).sum = (edges.map (weight ·.2)).sum := by
  have h := (hb.map weight).sum_eq
  simpa only [List.map_map, Function.comp_def] using h

theorem pairwise_zip (he : RankSorted edges) (ho : RankSorted others) :
    (edges.zip others).Pairwise fun pair pair' =>
      barRank pair.1.1 ≤ barRank pair'.1.1 ∧ barRank pair.2.1 ≤ barRank pair'.2.1 := by
  induction edges generalizing others with
  | nil => exact List.Pairwise.nil
  | cons edge edges ih =>
      cases others with
      | nil => exact List.Pairwise.nil
      | cons other others =>
          obtain ⟨hedge, he⟩ := List.pairwise_cons.mp he
          obtain ⟨hother, ho⟩ := List.pairwise_cons.mp ho
          refine List.pairwise_cons.mpr ⟨?_, ih he ho⟩
          intro pair hp
          obtain ⟨h1, h2⟩ := List.of_mem_zip (a := pair.1) (b := pair.2) hp
          exact ⟨hedge _ h1, hother _ h2⟩

-- Any two pairs are ordered alike on both sides.
theorem zip_ordered (he : RankSorted edges) (ho : RankSorted others)
    {pair pair' : EdgeText × EdgeText} (hp : pair ∈ edges.zip others)
    (hp' : pair' ∈ edges.zip others) :
    (barRank pair.1.1 ≤ barRank pair'.1.1 ∧ barRank pair.2.1 ≤ barRank pair'.2.1) ∨
      (barRank pair'.1.1 ≤ barRank pair.1.1 ∧ barRank pair'.2.1 ≤ barRank pair.2.1) := by
  have hsorted := pairwise_zip he ho
  exact List.Pairwise.forall_of_forall_of_flip (l := edges.zip others)
    (R := fun p q => (barRank p.1.1 ≤ barRank q.1.1 ∧ barRank p.2.1 ≤ barRank q.2.1) ∨
      (barRank q.1.1 ≤ barRank p.1.1 ∧ barRank q.2.1 ≤ barRank p.2.1))
    (fun p _ => Or.inl ⟨le_refl _, le_refl _⟩) (hsorted.imp Or.inl) (hsorted.imp Or.inr) hp hp'

theorem barRank_le (field : List Char) : barRank field ≤ 2 := by
  unfold barRank
  split
  · omega
  · split
    · omega
    · split <;> omega

theorem sum_zip_fst (hlen : edges.length = others.length) (weight : EdgeText → Nat) :
    ((edges.zip others).map (weight ·.1)).sum = (edges.map weight).sum := by
  have hfst := List.map_fst_zip hlen.le
  conv_rhs => rw [← hfst, List.map_map]
  rfl

theorem sum_zip_snd (hlen : edges.length = others.length) (weight : EdgeText → Nat) :
    ((edges.zip others).map (weight ·.2)).sum = (others.map weight).sum := by
  have hsnd := List.map_snd_zip hlen.ge
  conv_rhs => rw [← hsnd, List.map_map]
  rfl

def highWeight (field : List Char) : Nat := if barRank field = 2 then 1 else 0

-- As many locks start past the bar on both sides, since a bar after a lock starts none.
theorem high_sum_eq (hsame : List.Forall₂ SameUpToBar edges others)
    (hbe : Balanced edges) (hbo : Balanced others) :
    (edges.map (highWeight ·.1)).sum = (others.map (highWeight ·.1)).sum := by
  have hseconds : edges.map (highWeight ·.2) = others.map (highWeight ·.2) := by
    clear hbe hbo
    induction hsame with
    | nil => rfl
    | @cons edge other _ _ h _ ih =>
        have hhead : highWeight edge.2 = highWeight other.2 := by
          simp only [highWeight, h.high_iff]
        rw [List.map_cons, List.map_cons, ih, hhead]
  rw [hbe.sum_eq, hbo.sum_eq, hseconds]

theorem length_sum_eq (hlen : edges.length = others.length)
    (hkey : keyChars edges = keyChars others) (hbe : Balanced edges) (hbo : Balanced others) :
    (edges.map (·.1.length)).sum = (others.map (·.1.length)).sum := by
  have htotal := congrArg List.length hkey
  rw [length_keyChars, length_keyChars, ← hbe.sum_eq List.length, ← hbo.sum_eq List.length] at htotal
  omega

-- No place has a lock past the bar on one side and a lock behind a bar on the other: past it, the
-- first side would have more locks past the bar than the second.
theorem high_agree (hsame : List.Forall₂ SameUpToBar edges others)
    (he : RankSorted edges) (ho : RankSorted others)
    (hbe : Balanced edges) (hbo : Balanced others)
    {pair : EdgeText × EdgeText} (hp : pair ∈ edges.zip others)
    (hhigh : barRank pair.1.1 = 2) (hbar : barRank pair.2.1 = 1) : False := by
  have hlen := hsame.length_eq
  have hle : ∀ pair' ∈ edges.zip others, highWeight pair'.2.1 ≤ highWeight pair'.1.1 := by
    intro pair' hp'
    unfold highWeight
    by_cases h2 : barRank pair'.2.1 = 2
    · have h1 : barRank pair'.1.1 = 2 := by
        have hbound := barRank_le pair'.1.1
        rcases zip_ordered he ho hp hp' with h | h
        · omega
        · omega
      simp [h1, h2]
    · simp [h2]
  have hlt : highWeight pair.2.1 < highWeight pair.1.1 := by simp [highWeight, hhigh, hbar]
  have hsum := List.sum_lt_sum _ _ hle ⟨pair, hp, hlt⟩
  rw [sum_zip_fst hlen (highWeight ·.1), sum_zip_snd hlen (highWeight ·.1),
    high_sum_eq hsame hbe hbo] at hsum
  exact lt_irrefl _ hsum

theorem SameUpToBar.symm {edge other : EdgeText} (h : SameUpToBar edge other) :
    SameUpToBar other edge := by
  obtain ⟨h1, h2⟩ := h
  refine ⟨?_, ?_⟩
  · rcases h1 with h | h | h
    · exact Or.inl h.symm
    · exact Or.inr (Or.inr h)
    · exact Or.inr (Or.inl h)
  · rcases h2 with h | h | h
    · exact Or.inl h.symm
    · exact Or.inr (Or.inr h)
    · exact Or.inr (Or.inl h)

theorem forall₂_symm (hsame : List.Forall₂ SameUpToBar edges others) :
    List.Forall₂ SameUpToBar others edges :=
  (hsame.imp fun _ _ h => h.symm).flip

theorem mem_zip_swap {pair : EdgeText × EdgeText} (hp : pair ∈ edges.zip others) :
    pair.swap ∈ others.zip edges := by
  rw [← List.zip_swap]
  exact List.mem_map_of_mem hp

-- A lock one bar longer on the second side starts before the bar on the first.
theorem barRank_of_longer (hsame : List.Forall₂ SameUpToBar edges others)
    (hco : ∀ edge ∈ others, edge.Clean)
    (he : RankSorted edges) (ho : RankSorted others)
    (hbe : Balanced edges) (hbo : Balanced others)
    {pair : EdgeText × EdgeText} (hp : pair ∈ edges.zip others)
    (hbar : pair.2.1 = '|' :: pair.1.1) :
    barRank pair.1.1 = 0 ∧ barRank pair.2.1 = 1 := by
  have hrank : barRank pair.2.1 = 1 := by rw [hbar, barRank_bar_cons]
  have hclean : CleanField ('|' :: pair.1.1) :=
    hbar ▸ (hco _ (List.of_mem_zip (a := pair.1) (b := pair.2) hp).2).1
  have hne := barRank_ne_one hclean
  have hhigh : barRank pair.1.1 ≠ 2 := fun h => high_agree hsame he ho hbe hbo hp h hrank
  have hbound := barRank_le pair.1.1
  omega

-- With as many symbols on both sides, a lock one bar longer on one side makes another one bar
-- longer on the other, and the two cannot both be sorted.
theorem fst_eq_of_keyChars_eq (hsame : List.Forall₂ SameUpToBar edges others)
    (hce : ∀ edge ∈ edges, edge.Clean) (hco : ∀ edge ∈ others, edge.Clean)
    (he : RankSorted edges) (ho : RankSorted others)
    (hbe : Balanced edges) (hbo : Balanced others) (hkey : keyChars edges = keyChars others)
    {pair : EdgeText × EdgeText} (hp : pair ∈ edges.zip others) :
    pair.1.1 = pair.2.1 := by
  have hlen := hsame.length_eq
  have hpair : ∀ p ∈ edges.zip others, SameUpToBar p.1 p.2 := fun p hp =>
    (List.forall₂_iff_zip.mp hsame).2 hp
  have hlonger : ∀ p ∈ edges.zip others, ∀ q ∈ edges.zip others,
      p.2.1 = '|' :: p.1.1 → q.1.1 = '|' :: q.2.1 → False := by
    intro p hp q hq hpb hqb
    have hrp := barRank_of_longer hsame hco he ho hbe hbo hp hpb
    have hrq := barRank_of_longer (forall₂_symm hsame) hce ho he hbo hbe (mem_zip_swap hq) hqb
    simp only [Prod.fst_swap, Prod.snd_swap] at hrq
    rcases zip_ordered he ho hp hq with h | h
    · omega
    · omega
  have hsum := length_sum_eq hlen hkey hbe hbo
  rw [← sum_zip_fst hlen (·.1.length), ← sum_zip_snd hlen (·.1.length)] at hsum
  rcases (hpair pair hp).1 with h | h | h
  · exact h
  · have hle : ∀ p ∈ edges.zip others, p.2.1.length ≤ p.1.1.length := by
      intro p hp'
      rcases (hpair p hp').1 with h' | h' | h'
      · rw [h']
      · simp [h']
      · exact (hlonger p hp' pair hp h' h).elim
    have hlt := List.sum_lt_sum _ _ hle ⟨pair, hp, by simp [h]⟩
    omega
  · have hle : ∀ p ∈ edges.zip others, p.1.1.length ≤ p.2.1.length := by
      intro p hp'
      rcases (hpair p hp').1 with h' | h' | h'
      · rw [h']
      · exact (hlonger pair hp p hp' h h').elim
      · simp [h']
    have hlt := List.sum_lt_sum _ _ hle ⟨pair, hp, by simp [h]⟩
    omega

end Sorted

-- Once the locks before the marks agree, each bar has its place.
theorem eq_of_keyChars_eq {edges others : List EdgeText}
    (hce : ∀ edge ∈ edges, edge.Clean) (hco : ∀ edge ∈ others, edge.Clean)
    (hfst : edges.map Prod.fst = others.map Prod.fst) (h : keyChars edges = keyChars others) :
    edges = others := by
  induction edges generalizing others with
  | nil =>
      cases others with
      | nil => rfl
      | cons _ _ => simp at hfst
  | cons edge edges ih =>
      cases others with
      | nil => simp at hfst
      | cons other others =>
          obtain ⟨first, second⟩ := edge
          obtain ⟨first', second'⟩ := other
          simp only [List.map_cons, List.cons.injEq] at hfst
          obtain ⟨rfl, hfst⟩ := hfst
          obtain ⟨hedge, hedges⟩ := List.forall_mem_cons.mp hce
          obtain ⟨hother, hothers⟩ := List.forall_mem_cons.mp hco
          rw [keyChars_cons, keyChars_cons] at h
          have h := List.append_cancel_left h
          simp only [List.cons.injEq, true_and] at h
          have hbar : ∀ {left right : List EdgeText}, (∀ edge ∈ left, edge.Clean) →
              left.map Prod.fst = right.map Prod.fst → keyChars left = '|' :: keyChars right →
              False := by
            intro left right hleft hmap hk
            obtain ⟨field, text, tail, rfl, hk'⟩ := keyChars_eq_bar_cons hk
            cases right with
            | nil => simp at hmap
            | cons head right =>
                simp only [List.map_cons, List.cons.injEq] at hmap
                have hclean := (hleft _ (List.mem_cons_self ..)).1
                rw [keyChars_cons, keyChars_cons] at hk'
                have heq := (Library.Delimiter.split_pair (by decide) hclean.tail.1
                  (hmap.1 ▸ hclean.1) hk').1
                have hl := congrArg List.length (heq.trans hmap.1.symm)
                simp at hl
          rcases Library.Delimiter.split_double hedge.2.2 hother.2.2 h with
            ⟨hs, hk⟩ | ⟨_, hk⟩ | ⟨_, hk⟩
          · dsimp only at hs
            rw [hs, ih hedges hothers hfst hk]
          · exact (hbar hothers hfst.symm hk).elim
          · exact (hbar hedges hfst hk).elim

theorem keyChars_injective {edges others : List EdgeText}
    (hce : ∀ edge ∈ edges, edge.Clean) (hco : ∀ edge ∈ others, edge.Clean)
    (he : RankSorted edges) (ho : RankSorted others)
    (hbe : Balanced edges) (hbo : Balanced others) (h : keyChars edges = keyChars others) :
    edges = others := by
  have hsame := (sameUpToBar_of_keyChars_eq edges.length rfl hce hco h).1
  apply eq_of_keyChars_eq hce hco _ h
  apply List.ext_getElem
  · simpa using hsame.length_eq
  · intro index h1 h2
    simp only [List.getElem_map]
    simp only [List.length_map] at h1 h2
    have hmem : (edges[index], others[index]) ∈ edges.zip others := by
      rw [List.mem_iff_getElem]
      exact ⟨index, by simp [h1, h2], by simp⟩
    exact fst_eq_of_keyChars_eq hsame hce hco he ho hbe hbo h hmem

-- An elementary cycle, as one order between each two successive locks.
structure IsCycle (edges cycle : List LockOrderFact) : Prop where
  nonempty : cycle ≠ []
  mem : ∀ order ∈ cycle, order ∈ edges
  closed : cycle.map (·.secondLockId) = (cycle.map (·.firstLockId)).rotate 1
  nodup : (cycle.map (·.firstLockId)).Nodup

def edgeText (order : LockOrderFact) : EdgeText :=
  (order.firstLockId.toList, order.secondLockId.toList)

theorem toList_edgeName (order : LockOrderFact) :
    (edgeName order).toList = (edgeText order).1 ++ '-' :: '>' :: (edgeText order).2 := by
  simp [edgeName, edgeText]

def nameSorted (cycle : List LockOrderFact) : List LockOrderFact :=
  cycle.insertionSort fun order other => edgeName order ≤ edgeName other

theorem nameSorted_perm (cycle : List LockOrderFact) : (nameSorted cycle).Perm cycle :=
  List.perm_insertionSort _ _

def CleanOrders (edges : List LockOrderFact) : Prop :=
  ∀ order ∈ edges, CleanLockId order.firstLockId ∧ CleanLockId order.secondLockId

section Cycles

variable {edges cycle other : List LockOrderFact}

theorem IsCycle.edgeName_nodup (hc : IsCycle edges cycle) (hclean : CleanOrders edges) :
    (cycle.map edgeName).Nodup := by
  have hinj : ∀ first ∈ cycle, ∀ second ∈ cycle, edgeName first = edgeName second →
      first.firstLockId = second.firstLockId := by
    intro first hf second hs h
    have hl := congrArg String.toList h
    rw [toList_edgeName, toList_edgeName] at hl
    have heq := (Library.Delimiter.split_pair (by decide) (hclean _ (hc.mem _ hf)).1.1
      (hclean _ (hc.mem _ hs)).1.1 hl).1
    exact String.toList_inj.mp heq
  have hfirst := List.inj_on_of_nodup_map hc.nodup
  apply List.Nodup.map_on _ (List.Nodup.of_map _ hc.nodup)
  intro first hf second hs h
  exact hfirst hf hs (hinj first hf second hs h)

theorem IsCycle.toList_cycleKey (hc : IsCycle edges cycle) (hclean : CleanOrders edges) :
    (cycleKey cycle).toList = keyChars ((nameSorted cycle).map edgeText) := by
  have hsorted : orderedSet (cycle.map edgeName) = (nameSorted cycle).map edgeName := by
    unfold orderedSet nameSorted
    rw [List.dedup_eq_self.mpr (hc.edgeName_nodup hclean)]
    exact (List.map_insertionSort _ _ edgeName cycle fun _ _ _ _ => Iff.rfl).symm
  have hjoin : ∀ orders : List LockOrderFact,
      (String.join ((orders.map edgeName).map (· ++ "||"))).toList =
        keyChars (orders.map edgeText) := by
    intro orders
    induction orders with
    | nil => rfl
    | cons order orders ih =>
        rw [List.map_cons, List.map_cons, List.map_cons, keyChars_cons, String.join_cons,
          String.toList_append, ih, String.toList_append, toList_edgeName]
        simp
  unfold cycleKey
  rw [hsorted, hjoin]

theorem IsCycle.balanced (hc : IsCycle edges cycle) :
    Balanced ((nameSorted cycle).map edgeText) := by
  have hperm := (nameSorted_perm cycle).map edgeText
  unfold Balanced
  refine ((hperm.map Prod.fst).trans ?_).trans (hperm.map Prod.snd).symm
  have hseconds : (cycle.map edgeText).map Prod.snd =
      (cycle.map (·.secondLockId)).map String.toList := by
    simp [edgeText, Function.comp_def]
  have hfirsts : (cycle.map edgeText).map Prod.fst =
      (cycle.map (·.firstLockId)).map String.toList := by
    simp [edgeText, Function.comp_def]
  rw [hseconds, hfirsts, hc.closed]
  exact ((List.rotate_perm _ _).map _).symm

theorem barRank_append_mark (field rest : List Char) :
    barRank (field ++ '-' :: rest) = barRank field := by
  cases field with
  | nil => rfl
  | cons _ _ => rfl

theorem barRank_mono {symbol symbol' : Char} {rest rest' : List Char}
    (h : symbol :: rest ≤ symbol' :: rest') :
    barRank (symbol :: rest) ≤ barRank (symbol' :: rest') := by
  have hle : symbol ≤ symbol' := by
    by_contra hlt
    exact not_lt_of_ge h (List.Lex.rel (not_le.mp hlt))
  simp only [barRank]
  split
  · omega
  · rename_i hs
    have hs' : ¬symbol' < '|' := fun h => hs (lt_of_le_of_lt hle h)
    simp only [hs', if_false]
    split
    · split <;> omega
    · rename_i hne
      have hne' : symbol' ≠ '|' := by
        rintro rfl
        exact hne (le_antisymm hle (not_lt.mp hs))
      simp [hne']

theorem barRank_le_of_le {first second : LockOrderFact} (h : edgeName first ≤ edgeName second) :
    barRank (edgeText first).1 ≤ barRank (edgeText second).1 := by
  rw [String.le_iff_toList_le, toList_edgeName, toList_edgeName] at h
  rw [← barRank_append_mark (edgeText first).1 ('>' :: (edgeText first).2),
    ← barRank_append_mark (edgeText second).1 ('>' :: (edgeText second).2)]
  generalize hx : (edgeText first).1 ++ '-' :: '>' :: (edgeText first).2 = x at h ⊢
  generalize hy : (edgeText second).1 ++ '-' :: '>' :: (edgeText second).2 = y at h ⊢
  cases x with
  | nil => simp at hx
  | cons symbol rest =>
      cases y with
      | nil => simp at hy
      | cons symbol' rest' => exact barRank_mono h

theorem rankSorted_nameSorted (cycle : List LockOrderFact) :
    RankSorted ((nameSorted cycle).map edgeText) := by
  have htotal : Std.Total fun order other : LockOrderFact => edgeName order ≤ edgeName other :=
    ⟨fun _ _ => le_total _ _⟩
  have htrans : IsTrans LockOrderFact fun order other => edgeName order ≤ edgeName other :=
    ⟨fun _ _ _ => le_trans⟩
  unfold RankSorted
  rw [List.pairwise_map]
  exact (List.pairwise_insertionSort _ cycle).imp barRank_le_of_le

-- Two cycles with one key have the same orders, up to the order of the list.
theorem IsCycle.perm_of_cycleKey_eq (hc : IsCycle edges cycle) (ho : IsCycle edges other)
    (hclean : CleanOrders edges) (h : cycleKey cycle = cycleKey other) :
    (cycle.map edgeText).Perm (other.map edgeText) := by
  have hkey := congrArg String.toList h
  rw [hc.toList_cycleKey hclean, ho.toList_cycleKey hclean] at hkey
  have hcleanText : ∀ {orders : List LockOrderFact}, IsCycle edges orders →
      ∀ edge ∈ (nameSorted orders).map edgeText, edge.Clean := by
    intro orders horders edge he
    obtain ⟨order, hmem, rfl⟩ := List.mem_map.mp he
    exact hclean order (horders.mem order ((nameSorted_perm orders).mem_iff.mp hmem))
  have heq := keyChars_injective (hcleanText hc) (hcleanText ho) (rankSorted_nameSorted cycle)
    (rankSorted_nameSorted other) hc.balanced ho.balanced hkey
  exact ((nameSorted_perm cycle).map edgeText).symm.trans
    (heq ▸ (nameSorted_perm other).map edgeText)

end Cycles

end ConcurrencyAnalyzer.LockOrder
