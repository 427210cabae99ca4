import PropertyGraph.Lock.Monitor

/-!
# Threads at a lock

Any number of threads take holds of a lock and give them back, each hold for itself or for a guard.
A call that can be granted is granted at once; otherwise its thread parks, and once it is woken it
asks again, among the other woken threads in any order. What has been granted and given back is kept
in a log, so that holds can be counted without looking at the lock.

A hold fits if the word that counts it does not run over by it. Runs in which every hold fits are
singled out, since what the lock is for can be said of them only.

A thread that waits makes no calls. Nothing below depends on that, so the steps do not ask for it,
and there are more runs here than there can be.
-/

namespace PropertyGraph.Lock

/-- One hold more can be counted. -/
def HasRoom (l : Lock) (me : ThreadId) : Mode → Prop
  | .read => l.readHolds me + 1 ≠ 0
  | .write => l.writer = some me → l.writeHolds + 1 ≠ 0

/-- What a thread gives back by a call of its own. A guard gives its hold back when it is dropped. -/
inductive Unlock where
  | read
  | allReads
  | write
  deriving DecidableEq

def Unlock.release (me : ThreadId) : Unlock → Lock → Release
  | .read, l => l.leaveRead me
  | .allReads, l => l.leaveAllReads me
  | .write, l => l.leaveWrite me

/-- A guard that has not been dropped. -/
structure OpenGuard where
  number : Nat
  owner : ThreadId
  hold : Hold
  deriving DecidableEq

/-- What a thread has done. A hold that it took is that of the guard with the number, if there is
one. -/
inductive LogEntry where
  | took (me : ThreadId) (mode : Mode) (guard : Option Nat)
  | gave (me : ThreadId) (what : Unlock)
  | dropped (me : ThreadId) (guard : Nat)
  deriving DecidableEq

def LogEntry.doer : LogEntry → ThreadId
  | .took me _ _ => me
  | .gave me _ => me
  | .dropped me _ => me

/-- The threads at a lock, the guards they have, and what they have done, the latest in front. -/
structure Threads where
  monitor : Monitor
  guards : List OpenGuard := []
  log : List LogEntry := []

namespace Threads

def lock (x : Threads) : Lock := x.monitor.lock

/-- The number, if there is one, is that of no guard so far. -/
def Unused (x : Threads) (guard : Option Nat) : Prop :=
  ∀ number, guard = some number → ∀ me mode, .took me mode (some number) ∉ x.log

/-- A hold is granted, in an epoch. -/
def take (x : Threads) (monitor : Monitor) (me : ThreadId) (mode : Mode) (guard : Option Nat)
    (epoch : UInt64) : Threads where
  monitor := monitor
  guards := (guard.map fun number => ⟨number, me, mode.hold epoch⟩).toList ++ x.guards
  log := .took me mode guard :: x.log

/-- One call, or one turn of a woken thread. -/
inductive Step (x : Threads) : Threads → Prop where
  | granted (me : ThreadId) (mode : Mode) (guard : Option Nat) (epoch : UInt64) (monitor : Monitor)
    (hnew : x.Unused guard)
    (hcall : x.monitor.enter me mode = (.granted epoch, monitor)) :
    Step x (x.take monitor me mode guard epoch)
  | refused (me : ThreadId) (mode : Mode) (fault : Fault) (monitor : Monitor)
    (hcall : x.monitor.enter me mode = (.refused fault, monitor)) : Step x { x with monitor }
  | parked (me : ThreadId) (mode : Mode) (monitor : Monitor)
    (hcall : x.monitor.enter me mode = (.parked, monitor)) : Step x { x with monitor }
  | gave (me : ThreadId) (what : Unlock) :
    Step x { x with monitor := x.monitor.leave (what.release me), log := .gave me what :: x.log }
  | dropped (g : OpenGuard) (hopen : g ∈ x.guards) :
    Step x { monitor := x.monitor.leave (·.leaveHold g.owner g.hold), guards := x.guards.erase g,
             log := .dropped g.owner g.number :: x.log }
  | reordered (woken : List (ThreadId × Mode)) (horder : x.monitor.woken.Perm woken) :
    Step x { x with monitor := { x.monitor with woken } }
  | resumed (me : ThreadId) (mode : Mode) (guard : Option Nat) (epoch : UInt64) (monitor : Monitor)
    (rest : List (ThreadId × Mode)) (hnew : x.Unused guard)
    (hfirst : x.monitor.woken = (me, mode) :: rest)
    (hturn : x.monitor.retry = (some (me, epoch), monitor)) :
    Step x (x.take monitor me mode guard epoch)
  | reparked (monitor : Monitor) (hturn : x.monitor.retry = (none, monitor)) :
    Step x { x with monitor }

/-- What can come of a lock that is enabled and that nobody holds. -/
inductive Reachable : Threads → Prop where
  | start : Reachable { monitor := { lock := {} } }
  | step (x x' : Threads) (h : Reachable x) (hstep : Step x x') : Reachable x'

/-- A hold that is taken between the two fits. -/
def Fits (x x' : Threads) : Prop :=
  ∀ me mode guard, x'.log = .took me mode guard :: x.log → x.lock.HasRoom me mode

/-- What can come of it as long as every hold fits. -/
inductive Unwrapped : Threads → Prop where
  | start : Unwrapped { monitor := { lock := {} } }
  | step (x x' : Threads) (h : Unwrapped x) (hstep : Step x x') (hfits : Fits x x') : Unwrapped x'

end Threads

end PropertyGraph.Lock
