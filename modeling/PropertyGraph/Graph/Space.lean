import PropertyGraph.Lock
import PropertyGraph.Session.Command

/-!
# Graphs

A graph is a store behind a lock. Any number of handles may share it; it exists as long as one of
them does. All graphs share the catalog, since elements can be handed from one to another.

Calls on a graph come from one thread. A question holds the lock for reading and a change holds it
for writing, for as long as the call lasts. Where the call would have to wait it is refused: with
one thread, nobody would end the waiting.
-/

namespace PropertyGraph

/-- A store and its lock, and how many handles share them. -/
structure SharedGraph where
  lock : Lock
  store : Store
  handles : Nat := 1

/-- A handle to a graph: the token of its store. -/
structure Graph where
  token : Nat
  deriving DecidableEq, Repr, Inhabited

/-- The graphs, each at its token, and the catalog they share. A graph whose last handle was closed
has left its place empty. -/
structure GraphSpace where
  catalog : Catalog := {}
  graphs : Array (Option SharedGraph) := #[]

/-- A change of the graphs, or a refusal. -/
abbrev GraphAction := ExceptT Fault (StateM GraphSpace)

def caller : ThreadId := 0

/-- What a command asks the lock for. A poll changes only what its observer remembers. -/
def Command.mode : Command → Lock.Mode
  | .poll _ => .read
  | _ => .write

namespace GraphSpace

def shared? (space : GraphSpace) (g : Graph) : Option SharedGraph := space.graphs[g.token]?.join

def put (space : GraphSpace) (g : Graph) (shared : SharedGraph) : GraphSpace :=
  { space with graphs := space.graphs.setIfInBounds g.token (some shared) }

def session? (space : GraphSpace) (g : Graph) : Option Session :=
  (space.shared? g).map fun shared => { catalog := space.catalog, store := shared.store }

def lock? (space : GraphSpace) (g : Graph) : Option Lock := (space.shared? g).map (·.lock)

def onCatalog {α : Type} (f : Catalog → α × Catalog) : StateM GraphSpace α :=
  fun space =>
    let (answer, catalog) := f space.catalog
    (answer, { space with catalog })

end GraphSpace

namespace Graph

/-! ### Handles -/

def open_ (config : Config) : GraphAction Graph := fun space =>
  let token := space.graphs.size
  match Store.open? token config with
  | .error fault => (.error fault, space)
  | .ok store =>
    let shared : SharedGraph := { lock := { enabled := config.locking }, store }
    (.ok { token }, { space with graphs := space.graphs.push (some shared) })

def shared (g : Graph) : GraphAction SharedGraph := fun space =>
  match space.shared? g with
  | some shared => (.ok shared, space)
  | none => (.error .observedGraphGone, space)

def share (g : Graph) : GraphAction Graph := do
  let shared ← g.shared
  modify (·.put g { shared with handles := shared.handles + 1 })
  return g

/-- Closes a handle; the last one takes the graph with it. -/
def close (g : Graph) : GraphAction Unit := do
  let shared ← g.shared
  modify fun space =>
    if shared.handles ≤ 1 then
      { space with graphs := space.graphs.setIfInBounds g.token none }
    else space.put g { shared with handles := shared.handles - 1 }

/-! ### The lock -/

def enter (g : Graph) (mode : Lock.Mode) : GraphAction Lock.Hold := do
  let shared ← g.shared
  match shared.lock.enter caller mode with
  | .granted epoch lock =>
    modify (·.put g { shared with lock })
    return mode.hold epoch
  | .refused fault => throw fault
  | .waits => throw .wouldWait

def leave (g : Graph) (release : Lock → Lock.Release) : GraphAction Unit := do
  let shared ← g.shared
  modify (·.put g { shared with lock := (release shared.lock).lock })

/-- Runs an action on the store, whoever holds the lock. -/
def run {α : Type} (g : Graph) (action : Action α) : GraphAction α := fun space =>
  match space.shared? g with
  | none => (.error .observedGraphGone, space)
  | some shared =>
    let (answer, session) := action { catalog := space.catalog, store := shared.store }
    (answer,
      { space with catalog := session.catalog }.put g { shared with store := session.store })

def readUnlock (g : Graph) : GraphAction Unit := g.leave (·.leaveRead caller)

def readUnlockAll (g : Graph) : GraphAction Unit := g.leave (·.leaveAllReads caller)

def writeUnlock (g : Graph) : GraphAction Unit := g.leave (·.leaveWrite caller)

def checkWriter (g : Graph) : GraphAction Unit := do
  let shared ← g.shared
  shared.lock.checkWriter caller

end Graph

/-- A hold of a graph's lock that ends when the guard is dropped. -/
structure Guard where
  graph : Graph
  hold : Lock.Hold
  deriving DecidableEq, Repr

namespace Guard

def take (g : Graph) (mode : Lock.Mode) : GraphAction Guard := do
  return { graph := g, hold := ← g.enter mode }

def drop (guard : Guard) : GraphAction Unit := guard.graph.leave (·.leaveHold caller guard.hold)

/-- Runs an action and then drops the guard, also if the action fails. -/
def around {α : Type} (guard : Guard) (action : GraphAction α) : GraphAction α := fun space =>
  let (answer, space) := action space
  (answer, (guard.drop space).2)

/-- Asks the graph something before the guard is put to use. If there is no answer, the guard is
dropped. -/
def ask {α : Type} (guard : Guard) (question : Session → Except Fault α) : GraphAction α :=
  fun space =>
    match guard.graph.run (.ask question) space with
    | (.ok answer, space) => (.ok answer, space)
    | (.error fault, space) => (.error fault, (guard.drop space).2)

end Guard

namespace Graph

/-! ### Calls -/

/-- Runs an action under a guard that lasts as long as the call. -/
def during {α : Type} (g : Graph) (mode : Lock.Mode) (action : Action α) : GraphAction α := do
  let guard ← Guard.take g mode
  guard.around (g.run action)

def read {α : Type} (g : Graph) (question : Session → Except Fault α) : GraphAction α :=
  g.during .read (.ask question)

def see {α : Type} (g : Graph) (question : Session → α) : GraphAction α :=
  g.read fun s => .ok (question s)

def write {α : Type} (g : Graph) (action : Action α) : GraphAction α :=
  g.during .write action

/-- Makes a call that may change the store, under the hold that it takes. -/
def call (g : Graph) (command : Command) : GraphAction command.Answer :=
  g.during command.mode command.act

end Graph

structure Subgraph where
  graph : Graph
  view : View
  deriving DecidableEq, Repr

/-- The graph seen through a view, which must be live. -/
def Graph.through (g : Graph) (view : View) : GraphAction Subgraph := do
  discard <| g.read (·.viewRecord view)
  return { graph := g, view }

end PropertyGraph
