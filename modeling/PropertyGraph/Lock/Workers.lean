import PropertyGraph.Lock.Monitor
import Std.Data.HashSet

/-!
# Threads that keep guards

A monitor together with its threads: the guards that each of them keeps under names of its own, the
calls in which threads wait, and the threads whose waiting has ended. A new guard takes the
place of an old one of that name only once it is granted; the old one then gives its hold back,
which may let further threads go on.
-/

namespace PropertyGraph.Lock

/-- A call for the lock. The hold that it gives may be kept as a guard. -/
structure Call where
  mode : Mode
  guard : Option String := none
  deriving DecidableEq, Repr

structure Workers where
  monitor : Monitor
  guards : Std.HashMap (ThreadId × String) Hold := ∅
  waiting : Std.HashMap ThreadId Call := ∅
  /-- The threads that have gone on after waiting and have not been joined since. -/
  returned : Std.HashSet ThreadId := ∅

inductive Answer where
  | granted
  | refused (fault : Fault)
  | waits
  deriving DecidableEq

namespace Workers

/-- Keeps the hold that a call of the thread gave. Gives the hold of the guard that had the name. -/
def keep (c : Workers) (me : ThreadId) (call : Call) (epoch : UInt64) : Option Hold × Workers :=
  match call.guard with
  | none => (none, c)
  | some name =>
    (c.guards[(me, name)]?,
      { c with guards := c.guards.insert (me, name) (call.mode.hold epoch) })

/-- The waiting of a thread ends, in an epoch. -/
def resume (c : Workers) (me : ThreadId) (epoch : UInt64) : Option Hold × Workers :=
  match c.waiting[me]? with
  | none => (none, c)
  | some call =>
    { c with waiting := c.waiting.erase me, returned := c.returned.insert me }.keep me call epoch

/-- Threads end their waiting. Gives what they then have to give back. -/
def resumeAll (c : Workers) : List (ThreadId × UInt64) → List (Lock → Release) × Workers
  | [] => ([], c)
  | (me, epoch) :: rest =>
    let (old, c) := c.resume me epoch
    let (more, c) := c.resumeAll rest
    ((old.map fun hold lock => lock.leaveHold me hold).toList ++ more, c)

/-- Gives things back in turn, at most `steps` of them, each with what it lets go on. -/
def releaseWithin : Nat → List (Lock → Release) → Workers → Workers
  | 0, _, c => c
  | _, [], c => c
  | steps + 1, release :: rest, c =>
    let (gone, monitor) := (c.monitor.leave release).settle
    let (more, c) := { c with monitor }.resumeAll gone
    releaseWithin steps (more ++ rest) c

/-- Gives things back. Each thread that waits goes on at most once, and then gives back at most one
guard. -/
def release (c : Workers) (releases : List (Lock → Release)) : Workers :=
  releaseWithin (releases.length + c.waiting.size) releases c

def call (c : Workers) (me : ThreadId) (call : Call) : Answer × Workers :=
  match c.monitor.enter me call.mode with
  | (.granted epoch, monitor) =>
    let (old, c) := { c with monitor }.keep me call epoch
    (.granted, c.release (old.map fun hold lock => lock.leaveHold me hold).toList)
  | (.refused fault, monitor) => (.refused fault, { c with monitor })
  | (.parked, monitor) => (.waits, { c with monitor, waiting := c.waiting.insert me call })

def drop (c : Workers) (me : ThreadId) (name : String) : Bool × Workers :=
  match c.guards[(me, name)]? with
  | none => (false, c)
  | some hold =>
    (true, { c with guards := c.guards.erase (me, name) }.release [(·.leaveHold me hold)])

/-- Whether the thread, which had to wait, has gone on. It is told so once. -/
def join (c : Workers) (me : ThreadId) : Bool × Workers :=
  (c.returned.contains me, { c with returned := c.returned.erase me })

end Workers

end PropertyGraph.Lock
