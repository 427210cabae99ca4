import PropertyGraph.Graph.Calls
import PropertyGraph.Graph.Iterator
import PropertyGraph.Graph.Observing
import PropertyGraph.Lock.Threads

/-!
# Programs that work on a graph

A program of one thread works on a graph, and on any others besides. It takes holds of the lock of the
graph and gives them back, by calls or by guards, such as those of its iterators, and it makes all other
calls in between. Beside the graphs stand the guards of the graph that are open and a log of what the
program has done with its lock, which no call reads: so holds can be counted without looking at the
lock.
-/

namespace PropertyGraph

def Lock.Unlock.call (g : Graph) : Unlock → GraphAction Unit
  | read => g.readUnlock
  | allReads => g.readUnlockAll
  | write => g.writeUnlock

/-- If the graph is there, it can count one hold more of the caller. -/
def GraphSpace.HasRoom (space : GraphSpace) (g : Graph) : Prop :=
  ∀ lock, space.lock? g = some lock → ∀ mode, lock.HasRoom caller mode

structure Program where
  space : GraphSpace := {}
  /-- The guards that are open of the graph that the program works on. -/
  guards : List Lock.OpenGuard := []
  /-- What it has done with the lock of that graph, the latest in front. -/
  log : List Lock.LogEntry := []

namespace Program

def Unused (p : Program) (guard : Option Nat) : Prop :=
  ∀ number, guard = some number → ∀ me mode, .took me mode (some number) ∉ p.log

def take (p : Program) (space : GraphSpace) (mode : Lock.Mode) (guard : Option Nat)
    (hold : Lock.Hold) : Program where
  space := space
  guards := (guard.map fun number => ⟨number, caller, hold⟩).toList ++ p.guards
  log := .took caller mode guard :: p.log

/-- One call of a program that works on a graph that locks. A whole walk is an iterator that is opened,
asked, and dropped. The program does not close its graph for good. -/
inductive Step (g : Graph) (p : Program) : Program → Prop where
  | opened (config : Config)
    (hlocking : p.space.graphs.size = g.token → config.locking = true) :
    Step g p { p with space := (Graph.open_ config p.space).2 }
  | shared (g' : Graph) : Step g p { p with space := (g'.share p.space).2 }
  | closed (g' : Graph)
    (hleft : g' = g → ∀ shared, p.space.shared? g = some shared → 1 < shared.handles) :
    Step g p { p with space := (g'.close p.space).2 }
  /-- The graph is locked, or a guard of it is taken. -/
  | entered (mode : Lock.Mode) (guard : Option Nat) (hold : Lock.Hold) (space : GraphSpace)
    (hnew : p.Unused guard) (hcall : g.enter mode p.space = (.ok hold, space)) :
    Step g p (p.take space mode guard hold)
  /-- An iterator over the graph is opened. -/
  | begun (q : Query) (number : Nat) (it : Iterator) (space : GraphSpace)
    (hnew : p.Unused (some number)) (hcall : q.iterator g p.space = (.ok it, space)) :
    Step g p (p.take space .read (some number) it.guard.hold)
  | gave (what : Lock.Unlock) (space : GraphSpace)
    (hcall : what.call g p.space = (.ok (), space)) :
    Step g p { p with space, log := .gave caller what :: p.log }
  | dropped (number : Nat) (hold : Lock.Hold) (space : GraphSpace)
    (hopen : ⟨number, caller, hold⟩ ∈ p.guards)
    (hcall : Guard.drop { graph := g, hold } p.space = (.ok (), space)) :
    Step g p { space, guards := p.guards.erase ⟨number, caller, hold⟩,
               log := .dropped caller number :: p.log }
  /-- Another graph is locked, or this one refuses. -/
  | enteredElse (g' : Graph) (mode : Lock.Mode)
    (helse : g' = g → ∃ fault, (g.enter mode p.space).1 = .error fault) :
    Step g p { p with space := (g'.enter mode p.space).2 }
  | begunElse (g' : Graph) (q : Query)
    (helse : g' = g → ∃ fault, (q.iterator g p.space).1 = .error fault) :
    Step g p { p with space := (q.iterator g' p.space).2 }
  | leftElse (g' : Graph) (release : Lock → Lock.Release) (hother : g' ≠ g) :
    Step g p { p with space := (g'.leave release p.space).2 }
  | called (g' : Graph) (command : Command) :
    Step g p { p with space := (g'.call command p.space).2 }
  | asked {α : Type} (g' : Graph) (question : Session → Except Fault α) :
    Step g p { p with space := (g'.read question p.space).2 }
  | polled (o : Observer) : Step g p { p with space := (o.hasChanged p.space).2 }
  | took (o : Observer) : Step g p { p with space := (o.takeDiff p.space).2 }
  | ended (o : Observer) : Step g p { p with space := (o.destroy p.space).2 }
  | removed (it : Iterator) : Step g p { p with space := (it.remove p.space).2 }
  /-- Elements are made, and properties of theirs are set. -/
  | elsewhere (catalog : Catalog) (hnodes : catalog.nodeHomes = p.space.catalog.nodeHomes)
    (hedges : catalog.edgeHomes = p.space.catalog.edgeHomes)
    (hviews : catalog.destroyedViews = p.space.catalog.destroyedViews) :
    Step g p { p with space := { p.space with catalog } }

/-- What a program may have come to that works on the graph. -/
inductive Reachable (g : Graph) : Program → Prop where
  | start : Reachable g {}
  | step (p p' : Program) (h : Reachable g p) (hstep : Step g p p') : Reachable g p'

/-- What it may have come to if the graph could count one hold more whenever it made a call. -/
inductive InRange (g : Graph) : Program → Prop where
  | start : InRange g {}
  | step (p p' : Program) (h : InRange g p) (hroom : p.space.HasRoom g) (hstep : Step g p p') :
    InRange g p'

/-- A program runs on with one of its iterators, and the graph could count one hold more whenever it made
a call. Now and then the iterator is asked, or is told to remove what came last. Its answers are kept,
the first in front. -/
inductive Iterates (g : Graph) (p : Program) (it : Iterator) :
    Program → Iterator → List (Option Item) → Prop where
  | begun : Iterates g p it p it []
  | called (p' p'' : Program) (it' : Iterator) (answers : List (Option Item))
    (h : Iterates g p it p' it' answers) (hroom : p'.space.HasRoom g) (hstep : Step g p' p'') :
    Iterates g p it p'' it' answers
  | asked (p' : Program) (it' : Iterator) (answers : List (Option Item))
    (h : Iterates g p it p' it' answers) :
    Iterates g p it p' (it'.next p'.space).2 (answers ++ [(it'.next p'.space).1])
  | removed (p' : Program) (it' : Iterator) (answers : List (Option Item))
    (h : Iterates g p it p' it' answers) (hroom : p'.space.HasRoom g) :
    Iterates g p it { p' with space := (it'.remove p'.space).2 } (it'.remove p'.space).1.2 answers

end Program

end PropertyGraph
