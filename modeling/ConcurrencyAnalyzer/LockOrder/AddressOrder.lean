import ConcurrencyAnalyzer.FactsBuilder.LockOrders
import ConcurrencyAnalyzer.LockOrder.Analyzer
import ConcurrencyAnalyzer.LockOrder.CollectorTheorems
import ConcurrencyAnalyzer.Program.Execution
import Mathlib.Algebra.BigOperators.Fin
import Mathlib.Algebra.Group.Fin.Basic
import Mathlib.Algebra.Order.Ring.Int
import Mathlib.Algebra.Order.BigOperators.Group.Finset
import Mathlib.Order.Interval.Set.OrdConnected
import Mathlib.Data.BitVec
import Mathlib.Data.Int.ConditionallyCompleteOrder
import Mathlib.Order.CompletePartialOrder
import Mathlib.Order.ConditionallyCompleteLattice.Basic

namespace ConcurrencyAnalyzer.Program.Predicate

def signed : Predicate → Bool
  | .ICMP_SGT | .ICMP_SGE | .ICMP_SLT | .ICMP_SLE => true
  | _ => false

-- Whether two addresses differ for which it holds.
def strict : Predicate → Bool
  | .ICMP_UGT | .ICMP_ULT | .ICMP_SGT | .ICMP_SLT => true
  | _ => false

-- The side at the lower address, and the other one, where the comparison comes out in some way.
def lower {α : Type*} (predicate : Predicate) (outcome : Bool) (lhs rhs : α) : α :=
  if (predicate.isLT || predicate.isLE) = outcome then lhs else rhs

def upper {α : Type*} (predicate : Predicate) (outcome : Bool) (lhs rhs : α) : α :=
  if (predicate.isLT || predicate.isLE) = outcome then rhs else lhs

end ConcurrencyAnalyzer.Program.Predicate

namespace ConcurrencyAnalyzer.LockOrder

open Program LockState FactsBuilder

-- The number an address is compared as.
def comparedAs (signed : Bool) (address : BitVec 64) : Int :=
  if signed then address.toInt else address.toNat

theorem comparedAs_lower_le {predicate : Predicate} (h : predicate.isRelational = true)
    {lhs rhs : BitVec 64} {outcome : Bool} (houtcome : predicate.compares lhs rhs = outcome) :
    comparedAs predicate.signed (predicate.lower outcome lhs rhs) ≤
        comparedAs predicate.signed (predicate.upper outcome lhs rhs) ∧
      (predicate.strict = outcome →
        comparedAs predicate.signed (predicate.lower outcome lhs rhs) <
          comparedAs predicate.signed (predicate.upper outcome lhs rhs)) := by
  cases predicate with
  | ICMP_EQ | ICMP_NE => cases h
  | ICMP_UGT | ICMP_UGE | ICMP_ULT | ICMP_ULE | ICMP_SGT | ICMP_SGE | ICMP_SLT | ICMP_SLE =>
      cases outcome <;>
        simp [Predicate.compares, Predicate.lower, Predicate.upper, Predicate.strict, Predicate.signed,
          Predicate.isLT, Predicate.isLE, comparedAs, BitVec.ult_eq_decide, BitVec.ule_eq_decide,
          BitVec.slt_eq_decide, BitVec.sle_eq_decide] at houtcome ⊢ <;>
        omega

section Branches

-- A branch leads to some acquisitions only where its comparison comes out in one way.
structure Chooses (source : OrderSource) (sites : List OrderSite) (block : Nat)
    (comparison : AddressComparison) (outcome : Bool) : Prop where
  compares : source.comparisonOf block = some comparison
  relational : comparison.predicate.isRelational = true
  follow : ∃ whenTrue whenFalse, source.function.successors block = [whenTrue, whenFalse] ∧
    ∀ site ∈ sites, source.function.edgeDominates block (if outcome then whenTrue else whenFalse)
      site.1 = true

def AddressComparison.lower (comparison : AddressComparison) (outcome : Bool) : Pointer :=
  comparison.predicate.lower outcome comparison.lhs comparison.rhs

def AddressComparison.upper (comparison : AddressComparison) (outcome : Bool) : Pointer :=
  comparison.predicate.upper outcome comparison.lhs comparison.rhs

theorem AddressComparison.lower_not (comparison : AddressComparison) (outcome : Bool) :
    comparison.lower (!outcome) = comparison.upper outcome ∧
      comparison.upper (!outcome) = comparison.lower outcome := by
  unfold lower upper Predicate.lower Predicate.upper
  cases comparison.predicate.isLT || comparison.predicate.isLE <;> cases outcome <;> simp

theorem isLT_or_isLE_swapped {predicate : Predicate} (h : predicate.isRelational = true) :
    (predicate.swapped.isLT || predicate.swapped.isLE) = !(predicate.isLT || predicate.isLE) := by
  cases predicate with
  | ICMP_EQ | ICMP_NE => cases h
  | ICMP_UGT | ICMP_UGE | ICMP_ULT | ICMP_ULE | ICMP_SGT | ICMP_SGE | ICMP_SLT | ICMP_SLE => rfl

-- The branch that marks two orders leads to each only where the object of its first lock is the lower
-- one.
theorem chooses_of_branchOrders {source : OrderSource} {forward backward : List OrderSite}
    {firstObject secondObject : PathRoot} {block : Nat}
    (h : LockOrderCollector.branchOrders source forward backward firstObject secondObject block =
      true) :
    ∃ comparison outcome, Chooses source forward block comparison outcome ∧
      Chooses source backward block comparison (!outcome) ∧
      resolveBaseObject (comparison.lower outcome) = some firstObject ∧
      resolveBaseObject (comparison.upper outcome) = some secondObject := by
  unfold LockOrderCollector.branchOrders at h
  split at h
  · rename_i comparison whenTrue whenFalse hcomparison hsuccessors
    dsimp only at h
    split at h
    · cases h
    · rename_i hjudged
      simp only [Bool.or_eq_true, Bool.not_eq_true', decide_eq_true_eq, not_or,
        Bool.not_eq_false] at hjudged
      obtain ⟨hrelational, hside⟩ := hjudged
      simp only [Bool.and_eq_true, LockOrderCollector.allFollow, List.all_eq_true] at h
      obtain ⟨hforward, hbackward⟩ := h
      obtain ⟨left, hleft⟩ : ∃ left, (comparison.predicate.isLT || comparison.predicate.isLE) = left :=
        ⟨_, rfl⟩
      by_cases hstraight : resolveBaseObject comparison.lhs = some firstObject ∧
          resolveBaseObject comparison.rhs = some secondObject
      · simp only [hstraight, and_self, decide_true, if_true, hleft] at hforward hbackward
        refine ⟨comparison, left,
          ⟨hcomparison, hrelational, whenTrue, whenFalse, hsuccessors, hforward⟩,
          ⟨hcomparison, hrelational, whenTrue, whenFalse, hsuccessors, ?_⟩, ?_, ?_⟩
        · cases left <;> simpa using hbackward
        · rw [AddressComparison.lower, Predicate.lower, if_pos hleft]
          exact hstraight.1
        · rw [AddressComparison.upper, Predicate.upper, if_pos hleft]
          exact hstraight.2
      · have hnot : (decide (resolveBaseObject comparison.lhs = some firstObject) &&
            decide (resolveBaseObject comparison.rhs = some secondObject)) = false := by
          simpa using hstraight
        rw [hnot, eq_comm, Bool.not_eq_false, Bool.and_eq_true, decide_eq_true_eq,
          decide_eq_true_eq] at hside
        simp only [decide_eq_true_eq, hstraight, if_false, isLT_or_isLE_swapped hrelational, hleft]
          at hforward hbackward
        have hother : ¬(comparison.predicate.isLT || comparison.predicate.isLE) = !left := by
          rw [hleft]
          cases left <;> decide
        refine ⟨comparison, !left,
          ⟨hcomparison, hrelational, whenTrue, whenFalse, hsuccessors, hforward⟩,
          ⟨hcomparison, hrelational, whenTrue, whenFalse, hsuccessors, ?_⟩, ?_, ?_⟩
        · cases left <;> simpa using hbackward
        · rw [AddressComparison.lower, Predicate.lower, if_neg hother]
          exact hside.2
        · rw [AddressComparison.upper, Predicate.upper, if_neg hother]
          exact hside.1
  · cases h

variable {collector : LockOrderCollector} {source : OrderSource}

-- A branch that gives an order its mark: it compares the object of the first lock, as the lower one,
-- with that of the second.
structure Marks (collector : LockOrderCollector) (source : OrderSource) (fact : LockOrderFact)
    (sites : List OrderSite) (block : Nat) (comparison : AddressComparison) (outcome : Bool) :
    Prop where
  chooses : Chooses source sites block comparison outcome
  first : ∃ site object, collector.lockedObject source site fact.firstLockId = some object ∧
    resolveBaseObject (comparison.lower outcome) = some object
  second : ∃ site object, collector.lockedObject source site fact.secondLockId = some object ∧
    resolveBaseObject (comparison.upper outcome) = some object

theorem marks_of_chosenByAddress {lhs rhs : RecordedOrder}
    (h : collector.chosenByAddress source lhs rhs = true) :
    ∃ block comparison outcome, Marks collector source lhs.fact lhs.sites block comparison outcome ∧
      Marks collector source rhs.fact rhs.sites block comparison (!outcome) := by
  simp only [LockOrderCollector.chosenByAddress, LockOrderCollector.opposite, Bool.and_eq_true,
    decide_eq_true_eq] at h
  obtain ⟨⟨hfirst, hsecond⟩, horders⟩ := h
  unfold LockOrderCollector.ordersLowerAddressFirst at horders
  split at horders
  · rename_i firstObject secondObject hfirstObject hsecondObject
    obtain ⟨block, _, hbranch⟩ := List.any_eq_true.mp horders
    obtain ⟨site, _, hsite⟩ := Option.bind_eq_some_iff.mp hfirstObject
    obtain ⟨site', _, hsite'⟩ := Option.bind_eq_some_iff.mp hsecondObject
    obtain ⟨comparison, outcome, hforward, hbackward, hlower, hupper⟩ :=
      chooses_of_branchOrders hbranch
    obtain ⟨hlower', hupper'⟩ := comparison.lower_not outcome
    refine ⟨block, comparison, outcome,
      ⟨hforward, ⟨site, firstObject, hsite, hlower⟩, ⟨site', secondObject, hsite', hupper⟩⟩,
      ⟨hbackward, ⟨site', secondObject, hsecond ▸ hsite', ?_⟩,
        ⟨site, firstObject, hfirst ▸ hsite, ?_⟩⟩⟩
    · rw [hlower', hupper]
    · rw [hupper', hlower]
  · cases horders

theorem exists_marks {fact : LockOrderFact} {sites : List OrderSite}
    (h : collector.StandsFor source fact sites) (hmarked : fact.lowerAddressFirst = true) :
    ∃ block comparison outcome, Marks collector source fact sites block comparison outcome := by
  obtain ⟨index, order, horder, hfact, rfl⟩ := h
  rw [LockOrderCollector.collect_getElem?, horder, Option.map_some, Option.some.injEq] at hfact
  subst hfact
  obtain ⟨other, _, hother⟩ := List.any_eq_true.mp hmarked
  simp only [Bool.or_eq_true, Bool.and_eq_true] at hother
  rcases hother with ⟨_, hchosen⟩ | ⟨_, hchosen⟩
  · obtain ⟨block, comparison, outcome, hmarks, _⟩ := marks_of_chosenByAddress hchosen
    exact ⟨block, comparison, outcome, hmarks.chooses, hmarks.first, hmarks.second⟩
  · obtain ⟨block, comparison, outcome, _, hmarks⟩ := marks_of_chosenByAddress hchosen
    exact ⟨block, comparison, !outcome, hmarks.chooses, hmarks.first, hmarks.second⟩

end Branches

section Paths

-- Where the objects of a program are.
abbrev Addresses := StorageObject → BitVec 64

def addressOf (addresses : Addresses) (place : Place) : BitVec 64 :=
  addresses place.object + BitVec.ofInt 64 place.offset

-- The branches an activation takes: one that compares addresses goes where they send it, any other
-- either way.
def Follows (source : OrderSource) (frame : Frame) (addresses : Addresses) (block successor : Nat) :
    Prop :=
  match source.comparisonOf block, source.function.successors block with
  | some comparison, [whenTrue, whenFalse] =>
      ∃ lhs rhs, frame.Denotes comparison.lhs lhs ∧ frame.Denotes comparison.rhs rhs ∧
        successor = if comparison.predicate.compares (addressOf addresses lhs) (addressOf addresses rhs)
          then whenTrue else whenFalse
  | _, _ => True

variable {source : OrderSource} {frame : Frame} {addresses : Addresses}

theorem enters_of_arrives {flow : HeldFlow} {follows : Nat → Nat → Prop} {block index : Nat}
    {held : LockSet} (h : flow.Arrives follows block index held) :
    flow.function.Enters follows block := by
  induction h with
  | entry => exact .entry
  | next _ _ ih => exact ih
  | branch _ hfound hsuccessor hfollows ih =>
      refine ih.branch ?_ hfollows
      unfold Function.successors
      rwa [hfound]

-- Where an activation comes to an acquisition a branch chooses, the addresses compared lie in the
-- order of the branch.
theorem compared_of_enters {sites : List OrderSite} {block : Nat} {comparison : AddressComparison}
    {outcome : Bool} (h : Chooses source sites block comparison outcome) {site : OrderSite}
    (hsite : site ∈ sites)
    (henters : source.function.Enters (Follows source frame addresses) site.1) :
    ∃ lower upper, frame.Denotes (comparison.lower outcome) lower ∧
      frame.Denotes (comparison.upper outcome) upper ∧
      comparedAs comparison.predicate.signed (addressOf addresses lower) ≤
        comparedAs comparison.predicate.signed (addressOf addresses upper) ∧
      (comparison.predicate.strict = outcome →
        comparedAs comparison.predicate.signed (addressOf addresses lower) <
          comparedAs comparison.predicate.signed (addressOf addresses upper)) := by
  obtain ⟨whenTrue, whenFalse, hsuccessors, hfollow⟩ := h.follow
  have hdominates := hfollow site hsite
  have hfollows : Follows source frame addresses block (if outcome then whenTrue else whenFalse) := by
    by_contra havoids
    exact Function.not_enters_of_edgeDominates hdominates havoids henters
  simp only [Follows, h.compares, hsuccessors] at hfollows
  obtain ⟨lhs, rhs, hlhs, hrhs, hsame⟩ := hfollows
  have hne : whenTrue ≠ whenFalse := by
    intro heq
    simp only [Function.edgeDominates, Bool.and_eq_true, decide_eq_true_eq, hsuccessors] at hdominates
    have hcount := hdominates.1
    subst heq
    simp at hcount
  have houtcome : comparison.predicate.compares (addressOf addresses lhs) (addressOf addresses rhs) =
      outcome := by
    cases hholds : comparison.predicate.compares (addressOf addresses lhs) (addressOf addresses rhs) <;>
      cases outcome <;> simp_all
  have hle := comparedAs_lower_le h.relational houtcome
  refine ⟨comparison.predicate.lower outcome lhs rhs, comparison.predicate.upper outcome lhs rhs,
    ?_, ?_, ?_⟩
  · unfold AddressComparison.lower Predicate.lower
    split <;> assumption
  · unfold AddressComparison.upper Predicate.upper
    split <;> assumption
  · unfold Predicate.lower Predicate.upper at hle ⊢
    split at hle <;> rename_i hside <;> simpa [hside] using hle

end Paths

-- What an order becomes on its way up the calls.
inductive Instance (fact : LockOrderFact) : LockOrderFact → Prop
  | collected : Instance fact fact
  | atCall {order instantiated : LockOrderFact} {call : LockOrderCall} : Instance fact order →
      instantiated ∈ instantiateAtCall order call → Instance fact instantiated
  | united {order other : LockOrderFact} : Instance fact order →
      Instance fact (uniteThreads order other)
  | erased {order : LockOrderFact} : Instance fact order → Instance fact (eraseCallerFrame order)

theorem Instance.lowerAddressFirst {fact order : LockOrderFact} (h : Instance fact order) :
    order.lowerAddressFirst = fact.lowerAddressFirst := by
  induction h with
  | collected => rfl
  | @atCall order instantiated call _ hmem ih =>
      unfold instantiateAtCall at hmem
      split at hmem
      · exact absurd hmem List.not_mem_nil
      · obtain ⟨first, _, rfl⟩ := List.mem_map.mp hmem
        exact ih
  | united _ ih => exact ih
  | erased _ ih => exact ih

-- A call gives no other name to a lock that has one of its own.
theorem Instance.locks {fact order : LockOrderFact} (h : Instance fact order)
    (hfirst : namesCallerFrame fact.firstLockId = false)
    (hsecond : namesCallerFrame fact.secondLockId = false) :
    order.firstLockId = fact.firstLockId ∧ order.secondLockId = fact.secondLockId := by
  simp only [namesCallerFrame, Bool.or_eq_false_iff, decide_eq_false_iff_not,
    Option.isSome_eq_false_iff, Option.isNone_iff_eq_none] at hfirst hsecond
  induction h with
  | collected => exact ⟨rfl, rfl⟩
  | @atCall order instantiated call _ hmem ih =>
      obtain ⟨hfirst', hsecond'⟩ := ih
      have hname (name : String) (hplain : parameterLockPlace name = none) :
          lockAtCall name call = some name := by
        unfold lockAtCall
        rw [hplain]
      unfold instantiateAtCall at hmem
      rw [hsecond', hname _ hsecond.2] at hmem
      obtain ⟨first, hin, rfl⟩ := List.mem_map.mp hmem
      have hfirsts := (List.mem_filter.mp hin).1
      unfold firstsAtCall at hfirsts
      rw [hfirst', if_neg hfirst.1, hname _ hfirst.2] at hfirsts
      exact ⟨List.mem_singleton.mp hfirsts, rfl⟩
  | united _ ih => exact ih
  | erased _ ih => exact ih

-- An order under the name some caller has for it, with the activation that takes it and the two locks.
structure TakenOrder where
  collector : LockOrderCollector
  source : OrderSource
  frame : Frame
  order : LockOrderFact
  firstLock : Place
  secondLock : Place

namespace TakenOrder

-- The activation gets to an acquisition the order stands for, as the addresses send it, with the
-- first lock held, and takes the second.
def Taken (addresses : Addresses) (taken : TakenOrder) : Prop :=
  ∃ fact sites, taken.collector.StandsFor taken.source fact sites ∧ Instance fact taken.order ∧
    (∃ site ∈ sites, ∃ instruction held,
      taken.source.function.instructionAt site.1 site.2 = some instruction ∧
      (taken.collector.heldFlow taken.source).Arrives
        (Follows taken.source taken.frame addresses) site.1 site.2 held ∧
      fact.firstLockId ∈ held \
        (taken.collector.changeAt taken.source instruction).released.toFinset ∧
      fact.secondLockId ∈ (taken.collector.changeAt taken.source instruction).orderedAcquired) ∧
    (∃ operand, (taken.collector.effectResolver taken.source).lockIdOf operand =
      some fact.firstLockId ∧ taken.frame.Denotes operand taken.firstLock) ∧
    ∃ operand, (taken.collector.effectResolver taken.source).lockIdOf operand =
      some fact.secondLockId ∧ taken.frame.Denotes operand taken.secondLock

-- The comparisons that mark the order.
def MarkedBy (taken : TakenOrder) (comparison : AddressComparison) (outcome : Bool) : Prop :=
  ∃ fact sites block, taken.collector.StandsFor taken.source fact sites ∧
    Instance fact taken.order ∧
    Marks taken.collector taken.source fact sites block comparison outcome

end TakenOrder

-- The comparisons that mark the orders of a cycle are of one signedness, and each compares an address
-- in the object of the first lock with one in that of the second. Objects are ranges of addresses, and
-- two of them are the same or apart. Not all locks are in one object, but where it is a single address
-- and some comparison tells equal addresses apart.
structure OneAddressOrder {n : Nat} (addresses : Addresses) (cycle : Fin (n + 1) → TakenOrder)
    (signed : Bool) (object : Place → Set Int) : Prop where
  signedness : ∀ i comparison outcome, (cycle i).MarkedBy comparison outcome →
    comparison.predicate.signed = signed
  range : ∀ lock, (object lock).OrdConnected
  apart : ∀ lock other, object lock = object other ∨ Disjoint (object lock) (object other)
  lower : ∀ i comparison outcome, (cycle i).MarkedBy comparison outcome → ∀ place,
    (cycle i).frame.Denotes (comparison.lower outcome) place →
      comparedAs signed (addressOf addresses place) ∈ object (cycle i).firstLock
  upper : ∀ i comparison outcome, (cycle i).MarkedBy comparison outcome → ∀ place,
    (cycle i).frame.Denotes (comparison.upper outcome) place →
      comparedAs signed (addressOf addresses place) ∈ object (cycle i).secondLock
  leaves : ∃ i, object (cycle i).firstLock ≠ object (cycle i).secondLock ∨
    ((object (cycle i).firstLock).Subsingleton ∧ ∀ comparison outcome,
      (cycle i).MarkedBy comparison outcome → comparison.predicate.strict = outcome)

section Cycles

-- Around a cycle nothing only goes up.
theorem not_lt_around {n : Nat} {rank : Fin (n + 1) → Int} (hle : ∀ i, rank i ≤ rank (i + 1))
    (i : Fin (n + 1)) : ¬rank i < rank (i + 1) := by
  intro hlt
  have hless : ∑ i, rank i < ∑ i, rank (i + 1) :=
    Finset.sum_lt_sum (fun i _ => hle i) ⟨i, Finset.mem_univ i, hlt⟩
  have hsame : ∑ i, rank (i + 1) = ∑ i, rank i :=
    Equiv.sum_comp (Equiv.addRight (1 : Fin (n + 1))) rank
  omega

-- Two ranges that are apart lie one below the other.
theorem lt_of_apart {first second : Set Int} (hfirst : first.OrdConnected)
    (hsecond : second.OrdConnected) (hapart : Disjoint first second) {low high : Int}
    (hlow : low ∈ first) (hhigh : high ∈ second) (hle : low ≤ high) {value other : Int}
    (hvalue : value ∈ first) (hother : other ∈ second) : value < other := by
  by_contra hnot
  by_cases hbelow : other < low
  · exact Set.disjoint_left.mp hapart hlow (hsecond.out hother hhigh ⟨by omega, hle⟩)
  · exact Set.disjoint_left.mp hapart (hfirst.out hlow hvalue ⟨by omega, by omega⟩) hother

-- An address of an object.
noncomputable def someAddress (object : Set Int) : Int :=
  open Classical in if h : object.Nonempty then h.some else 0

theorem someAddress_mem {object : Set Int} {value : Int} (h : value ∈ object) :
    someAddress object ∈ object := by
  have hnonempty : object.Nonempty := ⟨value, h⟩
  rw [someAddress, dif_pos hnonempty]
  exact hnonempty.some_mem

variable {n : Nat} {addresses : Addresses} {cycle : Fin (n + 1) → TakenOrder} {signed : Bool}
  {object : Place → Set Int}

-- A marked order that is taken compares an address of its first lock's object that is not above the
-- one of its second's.
theorem OneAddressOrder.compared (h : OneAddressOrder addresses cycle signed object)
    {i : Fin (n + 1)} (hmarked : (cycle i).order.lowerAddressFirst = true)
    (htaken : (cycle i).Taken addresses) :
    ∃ low ∈ object (cycle i).firstLock, ∃ high ∈ object (cycle i).secondLock, low ≤ high ∧
      ((∀ comparison outcome, (cycle i).MarkedBy comparison outcome →
        comparison.predicate.strict = outcome) → low < high) := by
  obtain ⟨fact, sites, hstands, hinstance, ⟨site, hsite, _, _, _, harrives, _, _⟩, _⟩ := htaken
  obtain ⟨block, comparison, outcome, hmarks⟩ :=
    exists_marks hstands (hinstance.lowerAddressFirst.symm.trans hmarked)
  have hby : (cycle i).MarkedBy comparison outcome :=
    ⟨fact, sites, block, hstands, hinstance, hmarks⟩
  obtain ⟨lower, upper, hlower, hupper, hle, hlt⟩ :=
    compared_of_enters hmarks.chooses hsite (enters_of_arrives harrives)
  rw [h.signedness i comparison outcome hby] at hle hlt
  exact ⟨_, h.lower i comparison outcome hby lower hlower, _,
    h.upper i comparison outcome hby upper hupper, hle,
    fun hstrict => hlt (hstrict comparison outcome hby)⟩

-- No cycle of orders that are all marked is taken, where the comparisons are of one order of the
-- addresses.
theorem address_ordered_cycle_not_taken
    (hmarked : isAddressOrdered (List.ofFn fun i => (cycle i).order) = true)
    (hlinked : ∀ i, (cycle i).secondLock = (cycle (i + 1)).firstLock)
    (h : OneAddressOrder addresses cycle signed object) : ¬∀ i, (cycle i).Taken addresses := by
  intro htaken
  have hmark (i : Fin (n + 1)) : (cycle i).order.lowerAddressFirst = true :=
    List.all_eq_true.mp hmarked _ (List.mem_ofFn.mpr ⟨i, rfl⟩)
  have hstep (i : Fin (n + 1)) : object (cycle i).firstLock = object (cycle i).secondLock ∨
      someAddress (object (cycle i).firstLock) < someAddress (object (cycle i).secondLock) := by
    obtain ⟨low, hlow, high, hhigh, hle, _⟩ := h.compared (hmark i) (htaken i)
    rcases h.apart (cycle i).firstLock (cycle i).secondLock with hsame | hapart
    · exact .inl hsame
    · exact .inr (lt_of_apart (h.range _) (h.range _) hapart hlow hhigh hle (someAddress_mem hlow)
        (someAddress_mem hhigh))
  have haround := @not_lt_around n (fun i => someAddress (object (cycle i).firstLock)) (by
    intro i
    show _ ≤ someAddress (object (cycle (i + 1)).firstLock)
    rw [← hlinked i]
    rcases hstep i with hsame | hlt
    · rw [hsame]
    · exact hlt.le)
  have hsame (i : Fin (n + 1)) : object (cycle i).firstLock = object (cycle i).secondLock := by
    rcases hstep i with hsame | hlt
    · exact hsame
    · refine absurd ?_ (haround i)
      rwa [hlinked i] at hlt
  obtain ⟨i, hleaves⟩ := h.leaves
  rcases hleaves with hdiffers | ⟨hsingle, hstrict⟩
  · exact hdiffers (hsame i)
  · obtain ⟨low, hlow, high, hhigh, _, hlt⟩ := h.compared (hmark i) (htaken i)
    have heq := hsingle hlow (hsame i ▸ hhigh)
    have := hlt hstrict
    omega

-- Takes `a` and `b`, the lower one first.
def lockByAddress (id : String) (predicate : Predicate) : OrderSource where
  function :=
    { id := id
      blocks :=
        [{ successors := [1, 2] },
         { instructions :=
             [.lock .pthread_mutex_lock (.global "a") false,
              .lock .pthread_mutex_lock (.global "b") false]
           successors := [3] },
         { instructions :=
             [.lock .pthread_mutex_lock (.global "b") false,
              .lock .pthread_mutex_lock (.global "a") false]
           successors := [3] },
         { returns := true }] }
  comparisonOf block := if block = 0 then some ⟨predicate, .global "a", .global "b"⟩ else none

def orderByAddress (id : String) (predicate : Predicate) (first second : String) : TakenOrder where
  collector := {}
  source := lockByAddress id predicate
  frame := { function := id, activation := 0, arguments := [] }
  order :=
    { functionId := id, firstLockId := first, secondLockId := second
      heldLocks := {kLocksHeldByCaller, first}, lowerAddressFirst := true }
  firstLock := ⟨.global first, 0⟩
  secondLock := ⟨.global second, 0⟩

-- Two functions that take the two locks in different orders.
def inversionByAddress (predicate : Predicate) : Fin 2 → TakenOrder
  | 0 => orderByAddress "f" .ICMP_ULT "b" "a"
  | 1 => orderByAddress "g" predicate "a" "b"

-- The lock `a` is in the upper half of the addresses.
def upperHalf : Addresses := fun object => if object = .global "a" then 2 ^ 63 else 1

theorem lockIdOf_global (resolver : SynchronizationEffectResolver) (name : String) :
    resolver.lockIdOf (.global name) = some name := by
  simp [SynchronizationEffectResolver.lockIdOf, canonicalLockId, resolveCopiedValue,
    MemoryRegion.suffix]

theorem changeAt_global (collector : LockOrderCollector) (source : OrderSource) (name : String) :
    collector.changeAt source (.lock .pthread_mutex_lock (.global name) false) =
      { acquired := [name], orderedAcquired := [name]
        recursivelyAcquirable :=
          if collector.designatesRecursiveLockType (.global name) then [name] else [] } := by
  simp [LockOrderCollector.changeAt, lockStateChangeFor, SynchronizationEffectResolver.resolve,
    SynchronizationEffectResolver.plainEffects, classifyCallee, plainLockEffect, lockIdOf_global,
    LockStateChange.add, LockOrderCollector.effectResolver]

-- The order is taken on the branch that takes it, where the addresses lead there.
theorem taken_orderByAddress {id : String} {predicate : Predicate} {first second : String}
    {addresses : Addresses} {position branch : Nat} {order : RecordedOrder}
    (hrecorded : (LockOrderCollector.recordedOrders {} (lockByAddress id predicate))[position]? =
      some order) (hsites : order.sites = [(branch, 1)])
    (hcollected : (LockOrderCollector.collect {} (lockByAddress id predicate))[position]? =
      some (orderByAddress id predicate first second).order)
    (hbranch : branch ∈ [1, 2])
    (hinstructions : (lockByAddress id predicate).function.instructionAt branch 0 =
        some (.lock .pthread_mutex_lock (.global first) false) ∧
      (lockByAddress id predicate).function.instructionAt branch 1 =
        some (.lock .pthread_mutex_lock (.global second) false))
    (hfollows : Follows (lockByAddress id predicate)
      (orderByAddress id predicate first second).frame addresses 0 branch) :
    (orderByAddress id predicate first second).Taken addresses := by
  refine ⟨_, _, ⟨position, order, hrecorded, hcollected, rfl⟩, .collected,
    ⟨(branch, 1), hsites ▸ List.mem_singleton_self _, _, _, hinstructions.2,
      .next (@HeldFlow.Arrives.branch _ _ 0 _ _ branch .entry rfl hbranch hfollows)
        hinstructions.1, ?_, ?_⟩,
    ⟨.global first, lockIdOf_global _ first, rfl⟩, .global second, lockIdOf_global _ second, rfl⟩
  · refine Finset.mem_sdiff.mpr ⟨Finset.mem_union_right _ (List.mem_toFinset.mpr ?_), ?_⟩
    · show first ∈ (LockOrderCollector.changeAt {} (lockByAddress id predicate) _).acquired
      rw [changeAt_global]
      exact List.mem_singleton_self first
    · exact (changeAt_global {} (lockByAddress id predicate) second) ▸ Finset.notMem_empty _
  · exact (changeAt_global {} (lockByAddress id predicate) second) ▸ List.mem_singleton_self second

theorem signed_comparison_closes_cycle :
    isAddressOrdered (List.ofFn fun i => (inversionByAddress .ICMP_SLT i).order) = true ∧
      (∀ i, (inversionByAddress .ICMP_SLT i).secondLock = (inversionByAddress .ICMP_SLT (i + 1)).firstLock) ∧
      ∀ i, (inversionByAddress .ICMP_SLT i).Taken upperHalf := by
  have hlinked : ∀ i, (inversionByAddress .ICMP_SLT i).secondLock =
      (inversionByAddress .ICMP_SLT (i + 1)).firstLock
    | 0 => rfl
    | 1 => rfl
  have htaken : ∀ i, (inversionByAddress .ICMP_SLT i).Taken upperHalf
    | 0 => by
        have hcollected : (LockOrderCollector.collect {} (lockByAddress "f" .ICMP_ULT))[3]? =
            some (orderByAddress "f" .ICMP_ULT "b" "a").order := by decide +kernel
        obtain ⟨order, hrecorded, hsites⟩ : ∃ order ∈
            (LockOrderCollector.recordedOrders {} (lockByAddress "f" .ICMP_ULT))[3]?,
            order.sites = [(2, 1)] := by decide +kernel
        refine taken_orderByAddress hrecorded hsites hcollected (by decide) ⟨rfl, rfl⟩ ?_
        exact ⟨⟨.global "a", 0⟩, ⟨.global "b", 0⟩, rfl, rfl, by decide +kernel⟩
    | 1 => by
        have hcollected : (LockOrderCollector.collect {} (lockByAddress "g" .ICMP_SLT))[2]? =
            some (orderByAddress "g" .ICMP_SLT "a" "b").order := by decide +kernel
        obtain ⟨order, hrecorded, hsites⟩ : ∃ order ∈
            (LockOrderCollector.recordedOrders {} (lockByAddress "g" .ICMP_SLT))[2]?,
            order.sites = [(1, 1)] := by decide +kernel
        refine taken_orderByAddress hrecorded hsites hcollected (by decide) ⟨rfl, rfl⟩ ?_
        exact ⟨⟨.global "a", 0⟩, ⟨.global "b", 0⟩, rfl, rfl, by decide +kernel⟩
  exact ⟨rfl, hlinked, htaken⟩

theorem lockedObject_lockByAddress {id lock : String} {predicate : Predicate} {site : OrderSite}
    {object : PathRoot}
    (h : LockOrderCollector.lockedObject {} (lockByAddress id predicate) site lock = some object) :
    object = .global lock := by
  obtain ⟨instruction, hinstruction, hobject⟩ := Option.bind_eq_some_iff.mp h
  obtain ⟨found, hfound, hget⟩ := Option.bind_eq_some_iff.mp hinstruction
  have hlock : ∃ name, instruction = .lock .pthread_mutex_lock (.global name) false := by
    have hblock := List.mem_of_getElem? hfound
    have hmem := List.mem_of_getElem? hget
    simp only [lockByAddress, List.mem_cons, List.not_mem_nil, or_false] at hblock
    rcases hblock with rfl | rfl | rfl | rfl
    · exact absurd hmem List.not_mem_nil
    · rcases List.mem_pair.mp hmem with rfl | rfl
      · exact ⟨_, rfl⟩
      · exact ⟨_, rfl⟩
    · rcases List.mem_pair.mp hmem with rfl | rfl
      · exact ⟨_, rfl⟩
      · exact ⟨_, rfl⟩
    · exact absurd hmem List.not_mem_nil
  obtain ⟨name, rfl⟩ := hlock
  obtain ⟨operand, hfind, hbase⟩ := Option.bind_eq_some_iff.mp hobject
  have hoperand := List.mem_of_find?_eq_some hfind
  have hname := List.find?_some hfind
  rw [List.mem_singleton.mp hoperand] at hname hbase
  rw [decide_eq_true_eq, lockIdOf_global, Option.some.injEq] at hname
  rw [← hname]
  exact (Option.some.inj hbase).symm

-- The branch that marks an order compares its two locks.
theorem markedBy_orderByAddress {id first second : String} {predicate : Predicate}
    (hplain : ∀ fact ∈ LockOrderCollector.collect {} (lockByAddress id predicate),
      fact.lowerAddressFirst = true →
        namesCallerFrame fact.firstLockId = false ∧ namesCallerFrame fact.secondLockId = false)
    {comparison : AddressComparison} {outcome : Bool}
    (h : (orderByAddress id predicate first second).MarkedBy comparison outcome) :
    comparison.predicate = predicate ∧ comparison.lower outcome = .global first ∧
      comparison.upper outcome = .global second := by
  obtain ⟨fact, sites, block, hstands, hinstance, hmarks⟩ := h
  obtain ⟨hfirst, hsecond⟩ := hplain fact hstands.mem hinstance.lowerAddressFirst.symm
  obtain ⟨hsame, hsame'⟩ := hinstance.locks hfirst hsecond
  have hcomparison : comparison = ⟨predicate, .global "a", .global "b"⟩ := by
    have hcompares := hmarks.chooses.compares
    simp only [orderByAddress, lockByAddress] at hcompares
    split at hcompares
    · exact (Option.some.inj hcompares).symm
    · cases hcompares
  have hside (pointer : Pointer) (lock : String) (object : PathRoot)
      (hpointer : pointer = .global "a" ∨ pointer = .global "b")
      (hbase : resolveBaseObject pointer = some object) (hobject : object = .global lock) :
      pointer = .global lock := by
    rcases hpointer with rfl | rfl <;>
    · have := (Option.some.inj hbase).trans hobject
      simpa using this
  obtain ⟨site, object, hlocked, hbase⟩ := hmarks.first
  obtain ⟨site', object', hlocked', hbase'⟩ := hmarks.second
  have hobject := lockedObject_lockByAddress hlocked
  have hobject' := lockedObject_lockByAddress hlocked'
  rw [← hsame] at hobject
  rw [← hsame'] at hobject'
  refine ⟨by rw [hcomparison], hside _ _ _ ?_ hbase hobject, hside _ _ _ ?_ hbase' hobject'⟩
  · rw [hcomparison]
    unfold AddressComparison.lower Predicate.lower
    split
    · exact .inl rfl
    · exact .inr rfl
  · rw [hcomparison]
    unfold AddressComparison.upper Predicate.upper
    split
    · exact .inr rfl
    · exact .inl rfl

theorem unsigned_comparisons_close_no_cycle :
    isAddressOrdered (List.ofFn fun i => (inversionByAddress .ICMP_ULT i).order) = true ∧
      ¬∀ i, (inversionByAddress .ICMP_ULT i).Taken upperHalf := by
  have hplain (id : String) (hid : id = "f" ∨ id = "g") :
      ∀ fact ∈ LockOrderCollector.collect {} (lockByAddress id .ICMP_ULT),
        fact.lowerAddressFirst = true →
          namesCallerFrame fact.firstLockId = false ∧ namesCallerFrame fact.secondLockId = false := by
    rcases hid with rfl | rfl
    · decide +kernel
    · decide +kernel
  have hdenotes (id first second : String) (hid : id = "f" ∨ id = "g")
      (comparison : AddressComparison) (outcome : Bool)
      (h : (orderByAddress id .ICMP_ULT first second).MarkedBy comparison outcome) :
      comparison.predicate = .ICMP_ULT ∧
        (∀ place, (orderByAddress id .ICMP_ULT first second).frame.Denotes (comparison.lower outcome)
          place → place = ⟨.global first, 0⟩) ∧
        ∀ place, (orderByAddress id .ICMP_ULT first second).frame.Denotes (comparison.upper outcome)
          place → place = ⟨.global second, 0⟩ := by
    obtain ⟨hpredicate, hlower, hupper⟩ := markedBy_orderByAddress (hplain id hid) h
    rw [hlower, hupper]
    exact ⟨hpredicate, fun place hplace => hplace, fun place hplace => hplace⟩
  have hmarkedBy : ∀ i comparison outcome,
      (inversionByAddress .ICMP_ULT i).MarkedBy comparison outcome →
        comparison.predicate = .ICMP_ULT ∧
          (∀ place, (inversionByAddress .ICMP_ULT i).frame.Denotes (comparison.lower outcome) place →
            place = (inversionByAddress .ICMP_ULT i).firstLock) ∧
          ∀ place, (inversionByAddress .ICMP_ULT i).frame.Denotes (comparison.upper outcome) place →
            place = (inversionByAddress .ICMP_ULT i).secondLock
    | 0 => hdenotes "f" "b" "a" (.inl rfl)
    | 1 => hdenotes "g" "a" "b" (.inr rfl)
  have hlinked : ∀ i, (inversionByAddress .ICMP_ULT i).secondLock =
      (inversionByAddress .ICMP_ULT (i + 1)).firstLock
    | 0 => rfl
    | 1 => rfl
  refine ⟨rfl, @address_ordered_cycle_not_taken 1 upperHalf (inversionByAddress .ICMP_ULT) false
    (fun lock => {comparedAs false (addressOf upperHalf lock)}) rfl hlinked ?_⟩
  refine ⟨?_, ?_, ?_, ?_, ?_, ?_⟩
  · intro i comparison outcome h
    rw [(hmarkedBy i comparison outcome h).1]
    rfl
  · intro lock
    exact Set.ordConnected_singleton
  · intro lock other
    by_cases hsame : comparedAs false (addressOf upperHalf lock) =
        comparedAs false (addressOf upperHalf other)
    · exact .inl (by rw [hsame])
    · exact .inr (Set.disjoint_singleton.mpr hsame)
  · intro i comparison outcome h place hplace
    rw [(hmarkedBy i comparison outcome h).2.1 place hplace]
    exact Set.mem_singleton _
  · intro i comparison outcome h place hplace
    rw [(hmarkedBy i comparison outcome h).2.2 place hplace]
    exact Set.mem_singleton _
  · have hdiffers : comparedAs false (addressOf upperHalf ⟨.global "b", 0⟩) ≠
        comparedAs false (addressOf upperHalf ⟨.global "a", 0⟩) := by decide +kernel
    exact ⟨0, .inl fun hsame => hdiffers (Set.singleton_injective hsame)⟩

end Cycles

end ConcurrencyAnalyzer.LockOrder
