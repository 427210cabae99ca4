import PropertyGraph.Lock

/-!
# Waiting for the lock

A monitor is a lock together with the threads that wait for it. A thread that has to wait parks.
A release that wakes empties the parking place; every woken thread then asks again, and parks again
if it still has to wait.
-/

namespace PropertyGraph.Lock

/-- Whether what a waiting thread asks for can be granted now. -/
def grants (l : Lock) (me : ThreadId) : Mode → Bool
  | .read => l.mayRead me
  | .write => l.mayWrite

def grant (l : Lock) (me : ThreadId) : Mode → Lock
  | .read => l.addReadHold me
  | .write => l.setWriter me

/-- A lock and the threads waiting for it: those parked, and those woken that have not asked again
yet, each in the order in which they came. -/
structure Monitor where
  lock : Lock
  parked : List (ThreadId × Mode) := []
  woken : List (ThreadId × Mode) := []

inductive Outcome where
  | granted (epoch : UInt64)
  | refused (fault : Fault)
  | parked

namespace Monitor

def enter (m : Monitor) (me : ThreadId) (mode : Mode) : Outcome × Monitor :=
  match m.lock.enter me mode with
  | .granted epoch lock => (.granted epoch, { m with lock })
  | .refused fault => (.refused fault, m)
  | .waits => (.parked, { m with parked := m.parked ++ [(me, mode)] })

/-- Something is given back; if that wakes, all parked threads are woken. -/
def leave (m : Monitor) (release : Lock → Release) : Monitor :=
  let after := release m.lock
  if after.wakes then
    { lock := after.lock, parked := [], woken := m.woken ++ m.parked }
  else { m with lock := after.lock }

/-- The thread woken first asks again. Says which thread went on, and in which epoch. -/
def retry (m : Monitor) : Option (ThreadId × UInt64) × Monitor :=
  match m.woken with
  | [] => (none, m)
  | (me, mode) :: woken =>
    if m.lock.grants me mode then
      (some (me, m.lock.epoch me), { m with lock := m.lock.grant me mode, woken })
    else (none, { m with parked := m.parked ++ [(me, mode)], woken })

/-- The first `count` woken threads ask again. -/
def retryMany (m : Monitor) : Nat → List (ThreadId × UInt64) × Monitor
  | 0 => ([], m)
  | count + 1 =>
    let (gone, m) := m.retry
    let (rest, m) := m.retryMany count
    (gone.toList ++ rest, m)

/-- All woken threads ask again. Says which went on. Granting a hold wakes nobody, so afterwards no
thread is woken. -/
def settle (m : Monitor) : List (ThreadId × UInt64) × Monitor :=
  m.retryMany m.woken.length

end Monitor

end PropertyGraph.Lock
