import PropertyGraph.Fault
import Std.Data.ExtHashMap

/-!
# The lock of a graph

Any number of threads may hold the lock for reading, each again and again, or one thread may hold it
for writing; that thread may read and write again. A thread that only reads may not become the
writer: it would wait for itself. The holds of a thread are counted in a word, and one hold more than
the word can count makes the count 0.

Every call is a pure transition. One that has to wait has no successor state, and one that may let
waiting threads go on says so in `Release.wakes`.
-/

namespace PropertyGraph

abbrev ThreadId := Nat

/-- Who holds the lock. A thread's epoch counts how often it gave back all its read holds at once:
a guard taken in an earlier epoch no longer owns a hold. -/
structure Lock where
  /-- A lock that is not enabled holds nothing and lets every call pass. -/
  enabled : Bool := true
  writer : Option ThreadId := none
  writeHolds : UInt32 := 0
  readers : Std.ExtHashMap ThreadId UInt32 := ∅
  epochs : Std.ExtHashMap ThreadId UInt64 := ∅

namespace Lock

def readHolds (l : Lock) (me : ThreadId) : UInt32 := l.readers.getD me 0

def epoch (l : Lock) (me : ThreadId) : UInt64 := l.epochs.getD me 0

/-- Whether the thread is the writer. On a lock that is not enabled every thread counts as such. -/
def isWriter (l : Lock) (me : ThreadId) : Bool := !l.enabled || l.writer == some me

def readerThreads (l : Lock) : Nat := l.readers.size

/-- Whether the thread need not wait to read: no other thread writes. -/
def mayRead (l : Lock) (me : ThreadId) : Bool := l.writer.all (· == me)

/-- Whether a thread that is not the writer need not wait to write: nobody holds anything. -/
def mayWrite (l : Lock) : Bool := l.writer.isNone && l.readers.isEmpty

def addReadHold (l : Lock) (me : ThreadId) : Lock :=
  { l with readers := l.readers.insert me (l.readHolds me + 1) }

def setWriter (l : Lock) (me : ThreadId) : Lock :=
  { l with writer := some me, writeHolds := 1 }

/-- What becomes of a call for the lock. -/
inductive Entry where
  /-- The call is granted, in the given epoch of the thread. -/
  | granted (epoch : UInt64) (lock : Lock)
  | refused (fault : Fault)
  | waits

def enterRead (l : Lock) (me : ThreadId) : Entry :=
  if !l.enabled then .granted 0 l
  else if l.mayRead me then .granted (l.epoch me) (l.addReadHold me)
  else .waits

/-- Asks for the write hold. The writer gets another; a thread that only reads is refused. -/
def enterWrite (l : Lock) (me : ThreadId) : Entry :=
  if !l.enabled then .granted 0 l
  else if l.writer = some me then .granted (l.epoch me) { l with writeHolds := l.writeHolds + 1 }
  else if 0 < l.readHolds me then .refused .readHeld
  else if l.mayWrite then .granted (l.epoch me) (l.setWriter me)
  else .waits

inductive Mode where
  | read
  | write
  deriving DecidableEq, Repr

def enter (l : Lock) (me : ThreadId) : Mode → Entry
  | .read => l.enterRead me
  | .write => l.enterWrite me

/-- The lock after something was given back, and whether waiting threads are woken. -/
structure Release where
  lock : Lock
  wakes : Bool

/-- Takes one read hold away. With the last one the thread ceases to be a reader. -/
def dropReadHold (l : Lock) (me : ThreadId) : Release :=
  match l.readers[me]? with
  | none => { lock := l, wakes := false }
  | some holds =>
    if 1 < holds then
      { lock := { l with readers := l.readers.insert me (holds - 1) }, wakes := false }
    else { lock := { l with readers := l.readers.erase me }, wakes := true }

def leaveRead (l : Lock) (me : ThreadId) : Release :=
  if l.enabled then l.dropReadHold me else { lock := l, wakes := false }

/-- Gives all read holds of the thread back and begins its next epoch. -/
def leaveAllReads (l : Lock) (me : ThreadId) : Release :=
  if !l.enabled then { lock := l, wakes := false }
  else
    { lock :=
        { l with
          readers := l.readers.erase me
          epochs := l.epochs.insert me (l.epoch me + 1) }
      wakes := l.readers.contains me }

/-- Gives one write hold back. From a thread that is not the writer this changes nothing. -/
def leaveWrite (l : Lock) (me : ThreadId) : Release :=
  if !l.enabled || l.writer != some me then { lock := l, wakes := false }
  else if l.writeHolds - 1 = 0 then
    { lock := { l with writer := none, writeHolds := 0 }, wakes := true }
  else { lock := { l with writeHolds := l.writeHolds - 1 }, wakes := false }

/-- Gives back the read hold of a guard taken in an epoch, unless the thread has given back all its
holds since. -/
def leaveReadOf (l : Lock) (me : ThreadId) (epoch : UInt64) : Release :=
  if l.enabled && l.epoch me == epoch then l.dropReadHold me else { lock := l, wakes := false }

/-- A hold as a guard owns it: for reading, taken in an epoch, or for writing. -/
inductive Hold where
  | read (epoch : UInt64)
  | write
  deriving DecidableEq, Repr

def Mode.hold (epoch : UInt64) : Mode → Hold
  | .read => .read epoch
  | .write => .write

/-- Gives back what a guard of the thread owns. -/
def leaveHold (l : Lock) (me : ThreadId) : Hold → Release
  | .read epoch => l.leaveReadOf me epoch
  | .write => l.leaveWrite me

def checkWriter (l : Lock) (me : ThreadId) : Except Fault Unit :=
  if l.isWriter me then .ok () else .error .writeNotHeld

end Lock

end PropertyGraph
