import ConcurrencyAnalyzer.FactQueries
import ConcurrencyAnalyzer.Library.OrderedMap

namespace ConcurrencyAnalyzer.DataRace

open Library

def kMaxRelatedConflictSites : Nat := 6

def entriesOf (access : AccessFact) (facts : TUFacts) : ThreadEntrySet :=
  (facts.reachableThreadEntriesByFunction access.functionId).getD ∅

def participates (access : AccessFact) (facts : TUFacts) : Bool :=
  (facts.reachableThreadEntriesByFunction access.functionId).isSome || access.inRootTask

def isWrite (access : AccessFact) : Bool := access.kind = .Write

def shareRecognizedLock (lhs rhs : AccessFact) : Bool :=
  if lhs.heldLocks = ∅ || rhs.heldLocks = ∅ then false
  else decide (∃ lock ∈ lhs.heldLocks, lock ∈ rhs.heldLocks)

def orderedByPublication (lhs rhs : AccessFact) : Bool :=
  decide (∃ flag ∈ lhs.beforeRelease, flag ∈ rhs.afterAcquire) ||
    decide (∃ flag ∈ rhs.beforeRelease, flag ∈ lhs.afterAcquire)

def isRaceFreeAtomicPair (lhs rhs : AccessFact) : Bool := lhs.isAtomic && rhs.isAtomic

def isMixedAtomicPair (lhs rhs : AccessFact) : Bool := lhs.isAtomic != rhs.isAtomic

def hasPreciseRegions (lhs rhs : AccessFact) : Bool :=
  if lhs.coarseCallEffect || rhs.coarseCallEffect then false
  else lhs.region.hasKnownOffset && rhs.region.hasKnownOffset &&
    lhs.region.byteSize ≠ 0 && rhs.region.byteSize ≠ 0

def describeConflictSubject (access : AccessFact) : String :=
  if access.sharedObject then
    "unsynchronized concurrent access to an object shared with a thread"
  else "unsynchronized concurrent access to global '" ++ access.symbol ++ "'"

def sortedLocks (access : AccessFact) : List String := sortedNames access.heldLocks

def locationPart (lhs rhs : AccessFact) : String :=
  if !lhs.region.hasKnownOffset || !rhs.region.hasKnownOffset then "[*]"
  else "+" ++ toString (min lhs.region.byteOffset rhs.region.byteOffset)

def conflictLocationKey (lhs rhs : AccessFact) (lhsEntries rhsEntries : ThreadEntrySet) :
    String :=
  let contexts := [joinValues (sortedThreadEntries lhsEntries),
    joinValues (sortedThreadEntries rhsEntries)].insertionSort (· ≤ ·)
  lhs.symbol ++ locationPart lhs rhs ++ String.join (contexts.map ("|" ++ ·))

def hasDistinctLoweredLocation (access : AccessFact) : Bool :=
  !sameSourceLocation access.userLocation access.loweredLocation

def racesWithItself (access : AccessFact) (entries : ThreadEntrySet) (facts : TUFacts) : Bool :=
  if access.boundBySpawn then false
  else if racesWithRootTask access entries then true
  else decide (∃ lhsEntry ∈ entries, ∃ rhsEntry ∈ entries,
    lhsEntry < rhsEntry ∧ mayRunConcurrently {lhsEntry} {rhsEntry} facts = true)

def inOwnObjectsOfInstances (lhs rhs : AccessFact) : Bool :=
  lhs.instanceOwner ≠ "" && lhs.instanceOwner = rhs.instanceOwner

def shareSelfConcurrentEntry (lhsEntries rhsEntries : ThreadEntrySet) (facts : TUFacts) : Bool :=
  decide (∃ entry ∈ lhsEntries, entry ∈ rhsEntries ∧ entryIsSelfConcurrent facts entry = true)

def conflictKindLabel (lhsKind rhsKind : AccessKind) : String :=
  match lhsKind, rhsKind with
  | .Write, .Write => "write/write"
  | .Read, .Read => "read/read"
  | _, _ => "read/write"

def collectConflictKinds (lhs rhs : AccessFact) (lhsEntries rhsEntries : ThreadEntrySet)
    (facts : TUFacts) : List String :=
  orderedSet (conflictKindLabel lhs.kind rhs.kind ::
    if sameSourceLocation lhs.loweredLocation rhs.loweredLocation &&
        shareSelfConcurrentEntry lhsEntries rhsEntries facts && (isWrite lhs || isWrite rhs) then
      ["write/write"]
    else [])

def inferConfidence (lhs rhs : AccessFact) : ConfidenceLevel :=
  if lhs.aliasProvenance = .MayAlias || rhs.aliasProvenance = .MayAlias then .Low
  else if lhs.aliasProvenance = .MustAlias || rhs.aliasProvenance = .MustAlias then .Medium
  else .High

def describeAccess (access : AccessFact) (entries : List String) : String :=
  (if access.isAtomic then "atomic " else "") ++ access.kind.label ++ " at " ++
    locationLabel access.userLocation ++
    (if !entries.isEmpty then " (thread entries: " ++ joinValues entries ++ ")"
      else if access.inRootTask then " (initial thread)" else "") ++
    (if access.heldLocks ≠ ∅ then
      " under recognized lock(s): " ++ joinValues (sortedLocks access) else "")

def describeContext (access : AccessFact) (entries : ThreadEntrySet) : List String :=
  let ordered := sortedThreadEntries entries
  if ordered.isEmpty && access.inRootTask then [rootTaskId] else ordered

-- The properties both kinds of diagnostics carry.
def accessProperties (diagnostic : Diagnostic) (lhs rhs : AccessFact)
    (lhsEntries rhsEntries conflictKinds variableAliasing : List String) : Diagnostic :=
  ((((((((((diagnostic.property "symbol" (.text lhs.symbol)).property
    "firstAccessKind" (.text lhs.kind.label)).property
    "secondAccessKind" (.text rhs.kind.label)).property
    "firstAliasProvenance" (.text lhs.aliasProvenance.label)).property
    "secondAliasProvenance" (.text rhs.aliasProvenance.label)).property
    "firstProtected" (.flag (lhs.heldLocks ≠ ∅))).property
    "secondProtected" (.flag (rhs.heldLocks ≠ ∅))).property
    "firstThreadEntries" (.texts lhsEntries)).property
    "secondThreadEntries" (.texts rhsEntries)).property
    "conflictKinds" (.texts conflictKinds)).property
    "variableAliasing" (.texts variableAliasing)

def pairNotes (lhs rhs : AccessFact) (lhsEntries rhsEntries conflictKinds : List String)
    (additionalConflictingPairs : Nat) : List String :=
  ["first access: " ++ describeAccess lhs lhsEntries,
    "conflicting access: " ++ describeAccess rhs rhsEntries,
    "possible conflict kinds: " ++ joinValues conflictKinds] ++
  (if isMixedAtomicPair lhs rhs then
    ["one side is atomic while the other is a plain access: atomicity on " ++
      "only one side does not order the pair"] else []) ++
  ["no common recognized lock protects the conflicting accesses"] ++
  (if additionalConflictingPairs ≠ 0 then
    ["additional conflicting access pairs on this location: " ++
      toString additionalConflictingPairs] else [])

-- `emitPairDiagnostic`.
def pairDiagnostic (lhs rhs : AccessFact) (facts : TUFacts) (additionalConflictingPairs : Nat)
    (relatedConflictSites : List RelatedLocation) : Diagnostic :=
  let lhsEntries := describeContext lhs (entriesOf lhs facts)
  let rhsEntries := describeContext rhs (entriesOf rhs facts)
  let conflictKinds :=
    collectConflictKinds lhs rhs (entriesOf lhs facts) (entriesOf rhs facts) facts
  let variableAliasing := orderedSet [lhs.aliasProvenance.label, rhs.aliasProvenance.label]
  let noted := { Diagnostic.ofRule .DataRaceGlobal with
    confidence := some (inferConfidence lhs rhs)
    location := lhs.userLocation
    message := describeConflictSubject lhs
    notes := pairNotes lhs rhs lhsEntries rhsEntries conflictKinds additionalConflictingPairs
    relatedLocations := [⟨"Conflicting access", rhs.userLocation⟩] ++
      (if hasDistinctLoweredLocation lhs then
        [⟨"Lowered first access", lhs.loweredLocation⟩] else []) ++
      (if hasDistinctLoweredLocation rhs then
        [⟨"Lowered conflicting access", rhs.loweredLocation⟩] else []) ++ relatedConflictSites }
  (((accessProperties noted lhs rhs lhsEntries rhsEntries conflictKinds variableAliasing).property
    "firstAtomic" (.flag lhs.isAtomic)).property
    "secondAtomic" (.flag rhs.isAtomic)).property
    "additionalConflictingPairs" (.number (int64 additionalConflictingPairs))

-- `emitSelfConcurrentDiagnostic`.
def selfConcurrentDiagnostic (access : AccessFact) (facts : TUFacts) : Diagnostic :=
  let entries := describeContext access (entriesOf access facts)
  let entryLabel := if entries.isEmpty then access.functionId else joinValues entries
  let conflictKinds := ["write/write"]
  accessProperties
    { Diagnostic.ofRule .DataRaceGlobal with
      confidence := some (inferConfidence access access)
      location := access.userLocation
      message := describeConflictSubject access
      notes := ["access: " ++ describeAccess access entries,
        "conflicts with another concurrent invocation reachable from thread entry '" ++
          entryLabel ++ "'",
        "possible conflict kinds: " ++ joinValues conflictKinds,
        "no common recognized lock protects the conflicting accesses"]
      relatedLocations := [⟨"Concurrent invocation", access.userLocation⟩] ++
        (if hasDistinctLoweredLocation access then
          [⟨"Lowered access", access.loweredLocation⟩] else []) }
    access access entries entries conflictKinds [access.aliasProvenance.label]

structure LocationConflict where
  lhs : AccessFact
  rhs : AccessFact
  confidence : ConfidenceLevel
  isWriteWrite : Bool
  isPrecise : Bool
  showsLoweredOrigin : Bool
  additionalPairs : Nat := 0
  relatedSites : List RelatedLocation := []
  seenSiteKeys : Finset String := ∅

def isPrecisePair (lhs rhs : AccessFact) : Bool :=
  !lhs.coarseCallEffect && !rhs.coarseCallEffect && !lhs.guessedIdentity && !rhs.guessedIdentity

-- A conflict that has two accesses to show and nothing else yet.
def LocationConflict.ofPair (lhs rhs : AccessFact) : LocationConflict where
  lhs := lhs
  rhs := rhs
  confidence := inferConfidence lhs rhs
  isWriteWrite := isWrite lhs && isWrite rhs
  isPrecise := isPrecisePair lhs rhs
  showsLoweredOrigin := hasDistinctLoweredLocation lhs

-- The tuple by which two candidates are compared, from its first component on.
def LocationConflict.ranking (conflict : LocationConflict) : List Nat :=
  [conflict.isPrecise.toNat, conflict.showsLoweredOrigin.toNat, conflict.confidence.rank,
    conflict.isWriteWrite.toNat]

def addSite (conflict : LocationConflict) (site : AccessFact) : LocationConflict :=
  if conflict.relatedSites.length ≥ kMaxRelatedConflictSites then conflict
  else if locationLabel site.userLocation ∈ conflict.seenSiteKeys then conflict
  else
    { conflict with
      seenSiteKeys := insert (locationLabel site.userLocation) conflict.seenSiteKeys
      relatedSites := conflict.relatedSites ++ [⟨"Conflicting site", site.userLocation⟩] }

-- What a pair adds to its location.
def recordPair (lhs rhs : AccessFact) (present : Option LocationConflict) : LocationConflict :=
  let candidate := LocationConflict.ofPair lhs rhs
  let shown := match present with
    | none => candidate
    | some conflict =>
        if conflict.ranking < candidate.ranking then
          { candidate with
            additionalPairs := conflict.additionalPairs + 1
            relatedSites := conflict.relatedSites
            seenSiteKeys := conflict.seenSiteKeys }
        else { conflict with additionalPairs := conflict.additionalPairs + 1 }
  addSite (addSite shown lhs) rhs

structure PairScan where
  conflictsByLocation : OrderedMap String LocationConflict := OrderedMap.empty
  preciseConflictSymbols : Finset String := ∅

def locationKeyOf (facts : TUFacts) (lhs rhs : AccessFact) : String :=
  conflictLocationKey lhs rhs (entriesOf lhs facts) (entriesOf rhs facts)

def record (facts : TUFacts) (scan : PairScan) (lhs rhs : AccessFact) : PairScan :=
  { scan with
    conflictsByLocation :=
      scan.conflictsByLocation.alter (locationKeyOf facts lhs rhs) (recordPair lhs rhs) }

-- One round of the loops over two accesses of a symbol.
def comparePair (facts : TUFacts) (scan : PairScan) (pair : AccessFact × AccessFact) : PairScan :=
  let (lhs, rhs) := pair
  if !isWrite lhs && !isWrite rhs then scan
  else if !lhs.region.mayOverlap rhs.region then scan
  else if lhs.region.orderedWithElementOwner rhs.region then scan
  else if isRaceFreeAtomicPair lhs rhs then scan
  else if isMixedAtomicPair lhs rhs && !hasPreciseRegions lhs rhs then scan
  else if !mayHappenInParallel lhs (entriesOf lhs facts) rhs (entriesOf rhs facts) facts then scan
  else if inOwnObjectsOfInstances lhs rhs then scan
  else if shareRecognizedLock lhs rhs || orderedByPublication lhs rhs then scan
  else if isPrecisePair lhs rhs then
    record facts
      { scan with preciseConflictSymbols := insert lhs.symbol scan.preciseConflictSymbols } lhs rhs
  else if lhs.symbol ∈ scan.preciseConflictSymbols then scan
  else record facts scan lhs rhs

-- The pairs of two places of a list, in the order two nested loops take them.
def orderedPairs {α : Type*} : List α → List (α × α)
  | [] => []
  | first :: rest => rest.map (first, ·) ++ orderedPairs rest

-- One round of the loop comparing each access with itself.
def compareWithItself (facts : TUFacts) (scan : PairScan) (access : AccessFact) : PairScan :=
  if !isWrite access || access.isAtomic then scan
  else if !racesWithItself access (entriesOf access facts) facts then scan
  else if shareRecognizedLock access access then scan
  else if !isPrecisePair access access && access.symbol ∈ scan.preciseConflictSymbols then scan
  else if locationKeyOf facts access access ∈ scan.conflictsByLocation.keys then scan
  else
    { scan with
      conflictsByLocation := scan.conflictsByLocation.alter (locationKeyOf facts access access)
        fun _ => LocationConflict.ofPair access access }

def participating (facts : TUFacts) : List AccessFact :=
  facts.accesses.filter (participates · facts)

-- `accessesBySymbol`: its keys in order, and the accesses under a key in the order they came.
def symbols (facts : TUFacts) : List String :=
  orderedSet ((participating facts).map (·.symbol))

def accessesOf (facts : TUFacts) (symbol : String) : List AccessFact :=
  (participating facts).filter (·.symbol = symbol)

def conflictsByLocation (facts : TUFacts) (symbol : String) : OrderedMap String LocationConflict :=
  let accesses := accessesOf facts symbol
  let scan := (orderedPairs accesses).foldl (comparePair facts) {}
  (accesses.foldl (compareWithItself facts) scan).conflictsByLocation

-- The diagnostic of a location, less the sites that its two accesses already show.
def LocationConflict.diagnostic (conflict : LocationConflict) (facts : TUFacts) : Diagnostic :=
  pairDiagnostic conflict.lhs conflict.rhs facts conflict.additionalPairs
    (conflict.relatedSites.filter fun site =>
      !(sameSourceLocation site.location conflict.lhs.userLocation ||
        sameSourceLocation site.location conflict.rhs.userLocation))

-- A write that two threads of one entry may make at the same time.
def isSelfConcurrentWrite (facts : TUFacts) (access : AccessFact) : Bool :=
  isWrite access && !access.isAtomic && isSelfConcurrent (entriesOf access facts) facts &&
    !inOwnObjectsOfInstances access access && access.region.mayOverlap access.region &&
    !shareRecognizedLock access access

def symbolDiagnostics (facts : TUFacts) (symbol : String) : List Diagnostic :=
  let conflicts := (conflictsByLocation facts symbol).entries.map Prod.snd
  if !conflicts.isEmpty then conflicts.map (·.diagnostic facts)
  else (((accessesOf facts symbol).find? (isSelfConcurrentWrite facts)).map
    (selfConcurrentDiagnostic · facts)).toList

def run (facts : TUFacts) : DiagnosticReport where
  diagnostics := (symbols facts).flatMap (symbolDiagnostics facts)

end ConcurrencyAnalyzer.DataRace
