import Mathlib.Data.Fintype.Card
import Mathlib.Data.Finset.Card

namespace ConcurrencyAnalyzer.Library.Memo

variable {κ σ β α : Type*} [DecidableEq κ]

-- What is computed of each key, in steps some of which ask for what is computed of another. A key
-- asked for while it is itself being computed, or with nothing to compute, gets the placeholder.
structure Recursion (κ σ β α : Type*) where
  keys : Finset κ
  body : κ → Option (List σ)
  asks : σ → Option κ
  apply : σ → α → β → β
  initial : β
  finish : β → α
  placeholder : α
  finite : ∀ key, (body key).isSome = true → key ∈ keys

abbrev Cache (κ α : Type*) := κ → Option α

section Definitions

variable (recursion : Recursion κ σ β α)

def compute (query : Cache κ α → κ → α × Cache κ α) : Cache κ α → β → List σ → α × Cache κ α
  | cache, built, [] => (recursion.finish built, cache)
  | cache, built, step :: steps =>
      match recursion.asks step with
      | none => compute query cache (recursion.apply step recursion.placeholder built) steps
      | some key =>
          let answered := query cache key
          compute query answered.2 (recursion.apply step answered.1 built) steps

def ask : Nat → List κ → Cache κ α → κ → α × Cache κ α
  | 0, _, cache, key => ((cache key).getD recursion.placeholder, cache)
  | fuel + 1, inProgress, cache, key =>
      match cache key, recursion.body key with
      | some cached, _ => (cached, cache)
      | none, none => (recursion.placeholder, cache)
      | none, some steps =>
          if key ∈ inProgress then (recursion.placeholder, cache)
          else
            let computed := compute recursion (ask fuel (key :: inProgress)) cache
              recursion.initial steps
            (computed.1, Function.update computed.2 key (some computed.1))

-- The cache after some queries.
def cacheAfter (queries : List κ) : Cache κ α :=
  queries.foldl (fun cache key => (ask recursion recursion.keys.card [] cache key).2) fun _ => none

-- What a query gets after others.
def answerAfter (earlier : List κ) (key : κ) : α :=
  (ask recursion recursion.keys.card [] (cacheAfter recursion earlier) key).1

def OrderFree : Prop :=
  ∀ earlier others key, answerAfter recursion earlier key = answerAfter recursion others key

-- The keys that steps ask for.
def asked (steps : List σ) : List κ := steps.filterMap recursion.asks

-- The keys computed, each with those in progress then, and the keys done after.
def visitAll (visit : List κ → κ → List (List κ × κ) × List κ) :
    List κ → List κ → List (List κ × κ) × List κ
  | done, [] => ([], done)
  | done, key :: keys =>
      let visited := visit done key
      let rest := visitAll visit visited.2 keys
      (visited.1 ++ rest.1, rest.2)

def visit : Nat → List κ → List κ → κ → List (List κ × κ) × List κ
  | 0, _, done, _ => ([], done)
  | fuel + 1, inProgress, done, key =>
      match recursion.body key with
      | none => ([], done)
      | some steps =>
          if key ∈ done ∨ key ∈ inProgress then ([], done)
          else
            let visited := visitAll (visit fuel (key :: inProgress)) done (asked recursion steps)
            (visited.1 ++ [(inProgress, key)], key :: visited.2)

def visitedBy (queries : List κ) : List (List κ × κ) :=
  (visitAll (visit recursion recursion.keys.card []) [] queries).1

-- What steps build where what they ask for is known.
def assemble (answer : κ → α) (steps : List σ) (built : β) : α :=
  recursion.finish (steps.foldl (fun built step => recursion.apply step
    (((recursion.asks step).map answer).getD recursion.placeholder) built) built)

def answerIn (value : κ → α) (inProgress : List κ) (key : κ) : α :=
  if recursion.body key = none ∨ key ∈ inProgress then recursion.placeholder else value key

-- A key's steps build its value also with placeholders for the keys in progress.
def Stands (value : κ → α) (visited : List κ × κ) : Prop :=
  ∀ steps, recursion.body visited.2 = some steps →
    assemble recursion (answerIn recursion value (visited.2 :: visited.1)) steps
      recursion.initial = value visited.2

-- There are values that no placeholder given in answer to any queries changes.
def PlaceholderUnseen : Prop :=
  ∃ value, ∀ queries, ∀ visited ∈ visitedBy recursion queries, Stands recursion value visited

end Definitions

section Runs

variable {recursion : Recursion κ σ β α} {value : κ → α} {inProgress : List κ}

def Agrees (value : κ → α) (cache : Cache κ α) : Prop :=
  ∀ key found, cache key = some found → found = value key

def Grows (cache later : Cache κ α) : Prop := ∀ key found, cache key = some found → later key = some found

-- The keys done are those cached, and none of them is in progress.
structure Tracks (recursion : Recursion κ σ β α) (inProgress : List κ) (cache : Cache κ α)
    (done : List κ) : Prop where
  same : ∀ key, (cache key).isSome = true ↔ key ∈ done
  outside : ∀ key ∈ inProgress, cache key = none
  bodies : ∀ key ∈ done, (recursion.body key).isSome = true

-- What a query does to the cache, for the keys it visits.
structure Follows (recursion : Recursion κ σ β α) (value : κ → α) (inProgress : List κ)
    (cache : Cache κ α) (expected : α) (result : α × Cache κ α)
    (visited : List (List κ × κ) × List κ) : Prop where
  tracks : Tracks recursion inProgress result.2 visited.2
  grows : Grows cache result.2
  stands : Agrees value cache →
    ((∀ entry ∈ visited.1, Stands recursion value entry) ↔ Agrees value result.2)
  answer : Agrees value result.2 → result.1 = expected

omit [DecidableEq κ] in
theorem Agrees.of_grows {cache later : Cache κ α} (h : Agrees value later)
    (hgrows : Grows cache later) : Agrees value cache :=
  fun key found hfound => h key found (hgrows key found hfound)

theorem Follows.same {cache : Cache κ α} {done : List κ} {answer expected : α}
    (htracks : Tracks recursion inProgress cache done) (hanswer : Agrees value cache → answer = expected) :
    Follows recursion value inProgress cache expected (answer, cache) ([], done) where
  tracks := htracks
  grows _ _ h := h
  stands hagrees := iff_of_true (fun _ hmem => absurd hmem List.not_mem_nil) hagrees
  answer := hanswer

-- Steps give what they assemble, where what they ask for is answered as the values say.
theorem compute_follows {query : Cache κ α → κ → α × Cache κ α}
    {visit : List κ → κ → List (List κ × κ) × List κ}
    (hquery : ∀ cache done key, Tracks recursion inProgress cache done →
      Follows recursion value inProgress cache (answerIn recursion value inProgress key)
        (query cache key) (visit done key))
    (steps : List σ) (built : β) (cache : Cache κ α) (done : List κ)
    (htracks : Tracks recursion inProgress cache done) :
    Follows recursion value inProgress cache
      (assemble recursion (answerIn recursion value inProgress) steps built)
      (compute recursion query cache built steps)
      (visitAll visit done (asked recursion steps)) := by
  induction steps generalizing built cache done with
  | nil => exact Follows.same htracks fun _ => rfl
  | cons step steps ih =>
      unfold compute asked assemble
      rw [List.foldl_cons, List.filterMap_cons]
      cases hasks : recursion.asks step with
      | none => exact ih _ cache done htracks
      | some key =>
          have hfirst := hquery cache done key htracks
          have hrest := ih (recursion.apply step (query cache key).1 built) (query cache key).2
            (visit done key).2 hfirst.tracks
          refine ⟨hrest.tracks, ?_, ?_, ?_⟩
          · exact fun other found hfound => hrest.grows _ _ (hfirst.grows _ _ hfound)
          · intro hagrees
            simp only [visitAll, List.mem_append, or_imp, forall_and]
            constructor
            · rintro ⟨hone, hothers⟩
              exact (hrest.stands ((hfirst.stands hagrees).mp hone)).mp hothers
            · intro hlater
              have hmiddle := hlater.of_grows hrest.grows
              exact ⟨(hfirst.stands hagrees).mpr hmiddle, (hrest.stands hmiddle).mpr hlater⟩
          · intro hagrees
            have hanswer := hrest.answer hagrees
            rw [hfirst.answer (hagrees.of_grows hrest.grows)] at hanswer
            dsimp only
            rw [hfirst.answer (hagrees.of_grows hrest.grows)]
            exact hanswer

theorem Tracks.cached_eq {cache : Cache κ α} {done : List κ} {key : κ} {found : α}
    (htracks : Tracks recursion inProgress cache done) (hfound : cache key = some found)
    (hagrees : Agrees value cache) : found = answerIn recursion value inProgress key := by
  have hbody := htracks.bodies key ((htracks.same key).mp (by rw [hfound]; rfl))
  unfold answerIn
  rw [if_neg]
  · exact hagrees key found hfound
  · rintro (hnone | hmem)
    · rw [hnone] at hbody
      cases hbody
    · rw [htracks.outside key hmem] at hfound
      cases hfound

-- A key that was computed is cached, and is no longer in progress.
theorem Tracks.leave {cache : Cache κ α} {done : List κ} {key : κ} {found : α}
    (htracks : Tracks recursion (key :: inProgress) cache done) (hmem : key ∉ inProgress)
    (hbody : (recursion.body key).isSome = true) :
    Tracks recursion inProgress (Function.update cache key (some found)) (key :: done) where
  same other := by
    by_cases heq : other = key
    · subst heq
      simp
    · rw [Function.update_of_ne heq, htracks.same, List.mem_cons]
      exact (or_iff_right heq).symm
  outside other hother := by
    have hne : other ≠ key := fun heq => hmem (heq ▸ hother)
    rw [Function.update_of_ne hne]
    exact htracks.outside other (List.mem_cons_of_mem _ hother)
  bodies := List.forall_mem_cons.mpr ⟨hbody, htracks.bodies⟩

-- A value computed of a key that is in progress agrees when all that was computed for it does, and
-- when its steps give it.
theorem agrees_update_iff {cache : Cache κ α} {key : κ} {found : α} (hnone : cache key = none) :
    Agrees value (Function.update cache key (some found)) ↔ Agrees value cache ∧ found = value key := by
  constructor
  · intro hagrees
    refine ⟨fun other held hheld => hagrees other held ?_, hagrees key found ?_⟩
    · have hne : other ≠ key := by
        rintro rfl
        rw [hnone] at hheld
        cases hheld
      rwa [Function.update_of_ne hne]
    · exact Function.update_self ..
  · rintro ⟨hagrees, rfl⟩ other held hheld
    by_cases heq : other = key
    · subst heq
      rw [Function.update_self, Option.some.injEq] at hheld
      exact hheld.symm
    · rw [Function.update_of_ne heq] at hheld
      exact hagrees other held hheld

-- Where as many keys as there are can be in progress, a query gets the value, or a placeholder.
theorem ask_follows {fuel : Nat} {cache : Cache κ α} {done : List κ} {key : κ}
    (hnodup : inProgress.Nodup) (hbodies : ∀ other ∈ inProgress, (recursion.body other).isSome = true)
    (hfuel : recursion.keys.card ≤ inProgress.length + fuel)
    (htracks : Tracks recursion inProgress cache done) :
    Follows recursion value inProgress cache (answerIn recursion value inProgress key)
      (ask recursion fuel inProgress cache key) (visit recursion fuel inProgress done key) := by
  induction fuel generalizing inProgress cache done key with
  | zero =>
      refine Follows.same htracks fun hagrees => ?_
      cases hfound : cache key with
      | some found => exact htracks.cached_eq hfound hagrees
      | none =>
          unfold answerIn
          rw [if_pos, Option.getD_none]
          by_contra hnot
          rw [not_or] at hnot
          obtain ⟨hbody, hmem⟩ := hnot
          -- Each key in progress has a body, and so does this one: they are too many.
          have hall : (key :: inProgress).toFinset ⊆ recursion.keys := by
            intro other hother
            rcases List.mem_cons.mp (List.mem_toFinset.mp hother) with rfl | hother
            · exact recursion.finite other (Option.isSome_iff_ne_none.mpr hbody)
            · exact recursion.finite other (hbodies other hother)
          have hcard := Finset.card_le_card hall
          rw [List.toFinset_card_of_nodup (List.nodup_cons.mpr ⟨hmem, hnodup⟩),
            List.length_cons] at hcard
          omega
  | succ fuel ih =>
      unfold ask visit
      cases hfound : cache key with
      | some found =>
          have hdone : key ∈ done := (htracks.same key).mp (by rw [hfound]; rfl)
          have hsame : Follows recursion value inProgress cache
              (answerIn recursion value inProgress key) (found, cache) ([], done) :=
            .same htracks (htracks.cached_eq hfound)
          cases recursion.body key with
          | none => exact hsame
          | some steps =>
              dsimp only
              rw [if_pos (.inl hdone)]
              exact hsame
      | none =>
          have hdone : key ∉ done := fun hmem => by
            have hsome := (htracks.same key).mpr hmem
            rw [hfound] at hsome
            cases hsome
          cases hbody : recursion.body key with
          | none =>
              refine .same htracks fun _ => ?_
              rw [answerIn, if_pos (.inl hbody)]
          | some steps =>
              dsimp only
              by_cases hmem : key ∈ inProgress
              · rw [if_pos hmem, if_pos (.inr hmem)]
                refine .same htracks fun _ => ?_
                rw [answerIn, if_pos (.inr hmem)]
              · rw [if_neg hmem, if_neg (not_or.mpr ⟨hdone, hmem⟩)]
                have hsome : (recursion.body key).isSome = true := by rw [hbody]; rfl
                have hinside : Tracks recursion (key :: inProgress) cache done :=
                  ⟨htracks.same, List.forall_mem_cons.mpr ⟨hfound, htracks.outside⟩, htracks.bodies⟩
                have hinner := compute_follows (fun cache done other htracks =>
                  ih (List.nodup_cons.mpr ⟨hmem, hnodup⟩)
                    (List.forall_mem_cons.mpr ⟨hsome, hbodies⟩)
                    (by rw [List.length_cons]; omega) htracks)
                  steps recursion.initial cache done hinside
                have hnone := hinner.tracks.outside key (List.mem_cons_self ..)
                have hstands : Stands recursion value (inProgress, key) ↔
                    assemble recursion (answerIn recursion value (key :: inProgress)) steps
                      recursion.initial = value key := by
                  refine ⟨fun h => h steps hbody, fun h other hother => ?_⟩
                  rw [hbody, Option.some.injEq] at hother
                  exact hother ▸ h
                refine ⟨hinner.tracks.leave hmem hsome, ?_, ?_, ?_⟩
                · intro other held hheld
                  have hne : other ≠ key := by
                    rintro rfl
                    rw [hfound] at hheld
                    cases hheld
                  dsimp only
                  rw [Function.update_of_ne hne]
                  exact hinner.grows other held hheld
                · intro hagrees
                  rw [agrees_update_iff hnone, List.forall_mem_append, hinner.stands hagrees,
                    List.forall_mem_singleton, hstands]
                  refine and_congr_right fun hlater => ?_
                  rw [hinner.answer hlater]
                · intro hlater
                  rw [answerIn, if_neg (not_or.mpr ⟨?_, hmem⟩)]
                  · exact ((agrees_update_iff hnone).mp hlater).2
                  · rw [hbody]
                    exact Option.some_ne_none steps

-- Queries do to the cache what the steps of a key that asks for them would.
theorem cacheAfter_follows (queries : List κ) {cache : Cache κ α} {done : List κ}
    (htracks : Tracks recursion [] cache done) :
    let later := queries.foldl
      (fun cache key => (ask recursion recursion.keys.card [] cache key).2) cache
    let visited := visitAll (visit recursion recursion.keys.card []) done queries
    Tracks recursion [] later visited.2 ∧ Grows cache later ∧ (Agrees value cache →
      ((∀ entry ∈ visited.1, Stands recursion value entry) ↔ Agrees value later)) := by
  induction queries generalizing cache done with
  | nil =>
      refine ⟨htracks, fun _ _ h => h, fun hagrees => ?_⟩
      exact iff_of_true (fun _ hmem => absurd hmem List.not_mem_nil) hagrees
  | cons key queries ih =>
      have hfirst : Follows recursion value [] cache (answerIn recursion value [] key)
          (ask recursion recursion.keys.card [] cache key)
          (visit recursion recursion.keys.card [] done key) :=
        ask_follows List.nodup_nil (fun _ hmem => absurd hmem List.not_mem_nil)
          (by simp) htracks
      obtain ⟨hlater, hgrows, hstands⟩ := ih hfirst.tracks
      refine ⟨hlater, fun other found h => hgrows _ _ (hfirst.grows _ _ h), fun hagrees => ?_⟩
      simp only [visitAll, List.foldl_cons, List.forall_mem_append]
      constructor
      · rintro ⟨hone, hothers⟩
        exact (hstands ((hfirst.stands hagrees).mp hone)).mp hothers
      · intro hall
        have hmiddle := hall.of_grows hgrows
        exact ⟨(hfirst.stands hagrees).mpr hmiddle, (hstands hmiddle).mpr hall⟩

end Runs

section OrderOfQueries

variable (recursion : Recursion κ σ β α)

omit [DecidableEq κ] in
theorem Tracks.empty : Tracks recursion [] (fun _ => none) [] where
  same _ := by simp
  outside _ h := absurd h List.not_mem_nil
  bodies _ h := absurd h List.not_mem_nil

-- A key cached is answered with what is cached.
theorem answerAfter_of_cached {queries : List κ} {key : κ} {found : α}
    (hfound : cacheAfter recursion queries key = some found) :
    answerAfter recursion queries key = found := by
  unfold answerAfter
  cases recursion.keys.card with
  | zero => rw [ask, hfound, Option.getD_some]
  | succ fuel =>
      unfold ask
      rw [hfound]

theorem orderFree_iff_unseen : OrderFree recursion ↔ PlaceholderUnseen recursion := by
  constructor
  · intro hfree
    refine ⟨answerAfter recursion [], fun queries => ?_⟩
    have hagrees : Agrees (answerAfter recursion []) (cacheAfter recursion queries) := by
      intro key found hfound
      rw [← answerAfter_of_cached recursion hfound]
      exact hfree queries [] key
    obtain ⟨_, _, hstands⟩ := cacheAfter_follows queries (Tracks.empty recursion)
    exact (hstands fun _ _ h => (by cases h)).mpr hagrees
  · rintro ⟨value, hvalue⟩ earlier others key
    have hagrees (queries : List κ) : Agrees value (cacheAfter recursion queries) := by
      obtain ⟨_, _, hstands⟩ := cacheAfter_follows queries (Tracks.empty recursion)
      exact (hstands fun _ _ h => (by cases h)).mp (hvalue queries)
    have hanswer (queries : List κ) :
        answerAfter recursion queries key = answerIn recursion value [] key := by
      obtain ⟨htracks, _, _⟩ := @cacheAfter_follows _ _ _ _ _ _ value queries _ _ (Tracks.empty recursion)
      have hlast := hagrees (queries ++ [key])
      unfold cacheAfter at hlast
      rw [List.foldl_append] at hlast
      exact (ask_follows List.nodup_nil (fun _ hmem => absurd hmem List.not_mem_nil)
        (by simp) htracks).answer hlast
    rw [hanswer, hanswer]

end OrderOfQueries

end ConcurrencyAnalyzer.Library.Memo
