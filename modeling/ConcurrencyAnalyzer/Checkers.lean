import ConcurrencyAnalyzer.FactQueries

namespace ConcurrencyAnalyzer

-- The start of every builder chain: the rule, the place and what is said there.
def Diagnostic.reported (ruleId : RuleId) (location : SourceLocation) (message : String) :
    Diagnostic :=
  { Diagnostic.ofRule ruleId with location := location, message := message }

namespace ConditionWait

def diagnostic (fact : ConditionWaitFact) : Diagnostic :=
  let told := ((((Diagnostic.reported .ConditionWaitWithoutPredicate fact.location
    "condition-variable wait rechecks nothing when it wakes").note
      ("a wait may return without the condition holding: the standard permits a spurious wake-up, " ++
        "and a broadcast wakes every waiter while only one may proceed")).note
      ("wrap the wait in a loop that rechecks the condition, or pass a predicate to the wait " ++
        "itself")).taxonomy "CERT" "CON36-C"
      "Wrap functions that can spuriously wake up in a loop")
  let shown :=
    if fact.viaHelper then
      (told.note
        ("the wait is performed by a helper called from here; a helper cannot recheck a " ++
          "condition it does not know, so the loop belongs at this call site")).relatedLocation
        "Wait performed here" fact.loweredLocation
    else told
  (shown.property "viaHelper" (.flag fact.viaHelper)).property "function" (.text fact.functionId)

def run (facts : TUFacts) : DiagnosticReport where
  diagnostics := facts.conditionWaits.map diagnostic

end ConditionWait

namespace ProcessLifecycle

def forkDiagnostic (fork : ProcessForkFact) : Diagnostic :=
  ((((((Diagnostic.reported .ForkAfterThreadCreation fork.location
    "fork in a program that creates threads, with no exec in the child").note
      ("only the calling thread survives a fork, but the whole address space is inherited: a " ++
        "mutex another thread held is copied locked, and nothing will ever unlock it")).note
      ("POSIX limits the child to async-signal-safe calls until it execs, which excludes " ++
        "locking, allocating and starting threads")).note
      "either exec in the child, or fork before any thread is created").note
      ("the program creates threads and this fork reaches no exec; that the creation runs first " ++
        "is not proven here")).taxonomy "CERT" "POS33-C" "Do not use vfork()").property
    "function" (.text fork.functionId)

def unreapedDiagnostic (fork : ProcessForkFact) : Diagnostic :=
  ((((Diagnostic.reported .UnreapedChildProcess fork.location
    "child process is never collected").note
      ("the program forks but never calls wait, waitpid or waitid: every terminated child stays " ++
        "in the process table as a zombie")).note
      ("keep the pid the fork returns and wait on it, or arrange for the system to reap " ++
        "children")).note
      ("no wait and no SIGCHLD=SIG_IGN appears anywhere in the program; which pid a given wait " ++
        "collects is not tracked")).property
    "function" (.text fork.functionId)

def forkDiagnostics (createsThreads reapsChildProcesses : Bool) (fork : ProcessForkFact) :
    List Diagnostic :=
  if fork.execReachable then []
  else
    (if createsThreads then [forkDiagnostic fork] else []) ++
      (if !reapsChildProcesses then [unreapedDiagnostic fork] else [])

-- The entry is a property of a diagnostic only where it is known.
def withEntry (diagnostic : Diagnostic) (entryFunctionId : String) : Diagnostic :=
  if entryFunctionId ≠ "" then diagnostic.property "entry" (.text entryFunctionId) else diagnostic

def escapeDiagnostic (escape : ThreadArgumentEscapeFact) : Diagnostic :=
  withEntry (((((Diagnostic.reported .ThreadArgumentEscapesFrame escape.location
    "thread is given a pointer into the frame that created it").note
      ("the argument is a local variable of this function, and no join stands between the " ++
        "creation and every way out: the frame is gone while the thread still reads it")).note
      ("either join before returning, or give the thread storage that outlives the " ++
        "call")).taxonomy "CERT" "DCL30-C"
      "Declare objects with appropriate storage durations").property
    "function" (.text escape.functionId)) escape.entryFunctionId

def freeDiagnostic (freed : ThreadArgumentFreeFact) : Diagnostic :=
  withEntry ((((((Diagnostic.reported .ThreadArgumentFreedEarly freed.freeLocation
    "memory handed to a thread is freed before the thread is joined").note
      ("the thread may still be reading it: nothing orders the thread's use before this " ++
        "free")).note
      "join the thread before freeing, or let the thread free what it was given").relatedLocation
      "Thread given the memory" freed.creationLocation).taxonomy "CERT" "MEM30-C"
      "Do not access freed memory").property
    "function" (.text freed.functionId)) freed.entryFunctionId

def expiredDiagnostic (expired : ExpiredThreadLocalFact) : Diagnostic :=
  ((((((((Diagnostic.reported .ThreadLocalOutlivesThread expired.useLocation
    ("thread-local '" ++ expired.threadLocal ++ "' is used after its thread has ended")).note
      ("its thread published the address in '" ++ expired.pointer ++
        "' and has been joined: a thread's thread-local objects end with it")).note
      ("copy the value out before the thread ends, or give it storage that outlives the " ++
        "thread")).relatedLocation
      "Address published by the thread" expired.publishLocation).taxonomy "CERT" "DCL30-C"
      "Declare objects with appropriate storage durations").property
    "function" (.text expired.functionId)).property
    "entry" (.text expired.entryFunctionId)).property
    "threadLocal" (.text expired.threadLocal)).property
    "pointer" (.text expired.pointer)

def handlerDiagnostic (handler : SignalHandlerFact) : Diagnostic :=
  (((((Diagnostic.reported .UnsafeSignalHandler handler.location
    "signal handler reaches a call it may not make").note
      ("a handler interrupts its own thread at an arbitrary instruction, so it may run while " ++
        "the interrupted code is halfway through a structure: allocating, printing or locking " ++
        "there re-enters it")).note
      ("set a flag of type volatile sig_atomic_t and act on it outside the " ++
        "handler")).relatedLocation
      "Unsafe call reached from the handler" handler.unsafeCallLocation).taxonomy "CERT" "SIG30-C"
      "Call only asynchronous-safe functions within signal handlers").property
    "handler" (.text handler.handlerFunctionId)

def run (facts : TUFacts) : DiagnosticReport where
  diagnostics :=
    facts.processForks.flatMap
        (forkDiagnostics facts.programCreatesThreads facts.reapsChildProcesses) ++
      facts.threadArgumentEscapes.map escapeDiagnostic ++
      facts.threadArgumentFrees.map freeDiagnostic ++
      facts.expiredThreadLocals.map expiredDiagnostic ++
      facts.signalHandlers.map handlerDiagnostic

end ProcessLifecycle

namespace PublicationOrdering

def joinSymbols (symbols : List String) : String :=
  "'" ++ symbols.foldl
    (fun joined symbol => (if joined ≠ "" then joined ++ "', '" else joined) ++ symbol) "" ++ "'"

def mayOverlap (facts : TUFacts) (publication : WeakPublicationFact) : Bool :=
  match facts.reachableThreadEntriesByFunction publication.publisherFunctionId,
      facts.reachableThreadEntriesByFunction publication.readerFunctionId with
  | some publisherEntries, some readerEntries =>
      mayRunConcurrently publisherEntries readerEntries facts
  | _, _ => false

def diagnostic (publication : WeakPublicationFact) : Diagnostic :=
  let message := "atomic flag '" ++ publication.flag ++ "' publishes " ++
    joinSymbols publication.data ++ " without release/acquire ordering"
  let placed :=
    if !publication.storeReleases then
      ((Diagnostic.reported .WeakPublicationOrdering publication.storeLocation message).note
        ("the store to the flag does not release: nothing orders the writes before it ahead of a " ++
          "reader that sees the flag set")).relatedLocation
        "Load that observes the flag" publication.loadLocation
    else
      ((Diagnostic.reported .WeakPublicationOrdering publication.loadLocation message).note
        ("the load that observes the flag does not acquire: nothing orders the reads after it " ++
          "behind the writes that preceded the store")).relatedLocation
        "Store that publishes" publication.storeLocation
  let explained :=
    if !publication.storeReleases && !publication.loadAcquires then
      placed.note "the load that observes the flag does not acquire either"
    else placed
  ((((explained.note
    ("store the flag with memory_order_release and load it with memory_order_acquire, or use the " ++
      "default sequentially consistent order")).property
    "flag" (.text publication.flag)).property
    "data" (.texts publication.data)).property
    "storeReleases" (.flag publication.storeReleases)).property
    "loadAcquires" (.flag publication.loadAcquires)

def run (facts : TUFacts) : DiagnosticReport where
  diagnostics := (facts.weakPublications.filter (mayOverlap facts)).map diagnostic

end PublicationOrdering

end ConcurrencyAnalyzer
