import PropertyGraph.Session

/-!
# Nodes and edges come and go

An edge can only be stored while its ends are, so removing a node removes the edges at it first. A
call for several elements applies the call for one to each in turn and stops at the first refusal;
what was applied before stays applied.
-/

namespace PropertyGraph.Session

open PropertyGraph.Action

/-! ### Nodes -/

/-- Stores a node. False if this node is stored here already. -/
def addNode (node : Node) : Action Bool := do
  if node.id.isAbsent then throw .emptyNodeId
  if (← ask (·.nodeSlot? node)).isSome then return false
  if (← get).store.nodes.ids.contains node.id then throw (.nodeIdTaken node.id)
  let slot ← onStore fun store =>
    match store.nodes.add node with
    | (answer, nodes) => (answer, { store with nodes })
  change fun s => s.withCatalog (·.bindNode node { store := s.store.token, slot })
  change fun s => (s.bumpIf true false).tell (.nodeAdded node (s.catalog.nodeSlot? node))
  return true

/-- Frees the slot of a node, whose edges must be gone. False if the node is stored nowhere. -/
def dropNode (node : Node) : Action Bool := do
  match ← ask (·.nodeSlot? node) with
  | none => return false
  | some slot =>
    change fun s =>
      (s.withStore fun store => { store with nodes := store.nodes.remove node slot }).withCatalog
        (·.unbindNode node)
    return true

/-! ### Edges -/

/-- Why an edge may not run between two slots here, if it may not. -/
def refusal? (s : Session) (edge : Edge) (source target : Nat) : Option Fault :=
  if !s.store.edges.kind.admits edge.directed then
    some (.edgeNotAdmitted edge.directed edge.id s.store.edges.kind)
  else if s.store.edges.ids.contains edge.id then some (.edgeIdTaken edge.id)
  else (s.store.labels.idOf? edge.label).bind
    (s.store.edges.conflict? source target · edge.directed)

/-- Stores an edge between two stored nodes, registering its label if that is new. False if this
edge is stored here already. -/
def addEdge (edge : Edge) : Action Bool := do
  if edge.id.isAbsent then throw .emptyEdgeId
  if (← ask (·.edgeSlot? edge)).isSome then return false
  let source ← ask (·.endSlot edge .source)
  let target ← ask (·.endSlot edge .target)
  if let some fault := (← get).refusal? edge source target then throw fault
  -- The label is registered first, so it stays if no slot is left for the edge.
  let label ← onStore fun store =>
    match store.labels.add edge.label with
    | (answer, labels) => (answer, { store with labels })
  let record : EdgeSlot := { edge, ends := ⟨source, target⟩, label }
  let slot ← onStore fun store =>
    match store.edges.add record with
    | (answer, edges) => (answer, { store with edges })
  change (·.withStore (·.link slot record))
  change fun s => s.withCatalog (·.bindEdge edge { store := s.store.token, slot })
  change fun s => (s.bumpIf false true).tell (.edgeAdded edge (s.catalog.edgeSlot? edge))
  return true

def dropEdge (s : Session) (edge : Edge) (slot : Nat) : Session :=
  match s.store.edges.get? slot with
  | none => s
  | some record => (s.withStore (·.unlink slot record)).withCatalog (·.unbindEdge edge)

/-- Removes an edge. False if it is stored nowhere. -/
def removeEdge (edge : Edge) : Action Bool := do
  match ← ask (·.edgeSlot? edge) with
  | none => return false
  | some slot =>
    change (·.dropEdge edge slot)
    change (·.withStore fun store => { store with views := store.views.map (·.forgetEdge slot) })
    change fun s => (s.bumpIf false true).tell (.edgeRemoved edge (s.catalog.edgeSlot? edge))
    return true

def incidentEdges (s : Session) (slot : Nat) : List Edge :=
  match s.store.nodes.get? slot with
  | none => []
  | some n => (s.store.incident n).filterMap s.store.edge?

/-- Removes a node and all edges at it. False if the node is stored nowhere. -/
def removeNode (node : Node) : Action Bool := do
  match ← ask (·.nodeSlot? node) with
  | none => return false
  | some slot =>
    let incident := (← get).incidentEdges slot
    incident.forM fun edge => discard (removeEdge edge)
    change (·.withStore fun store => { store with views := store.views.map (·.forgetNode slot) })
    discard (dropNode node)
    change fun s => (s.bumpIf true false).tell (.nodeRemoved node (s.catalog.nodeSlot? node))
    return true

/-! ### Several at once -/

/-- Applies a call to each element and counts those for which it answers true. -/
def countEach {α : Type} (call : α → Action Bool) : List α → Action Nat
  | [] => return 0
  | element :: rest => do
    let done ← call element
    let count ← countEach call rest
    return if done then count + 1 else count

def addNodes (nodes : List Node) : Action Nat := countEach addNode nodes

def removeNodes (nodes : List Node) : Action Nat := countEach removeNode nodes

def addEdges (edges : List Edge) : Action Nat := countEach addEdge edges

def removeEdges (edges : List Edge) : Action Nat := countEach removeEdge edges

def retainNodes (keep : List Node) : Action Nat := do
  let keep := Std.HashSet.ofList keep
  removeNodes ((← get).store.nodes.nodes.filter (!keep.contains ·))

def retainEdges (keep : List Edge) : Action Nat := do
  let keep := Std.HashSet.ofList keep
  removeEdges ((← get).store.edges.edges.filter (!keep.contains ·))

/-! ### Everything at once -/

/-- Takes all edges out of the store. The chains at the nodes are left to the caller. -/
def dropAllEdges (s : Session) : Session :=
  (s.withCatalog fun catalog => s.store.edges.edges.foldl Catalog.unbindEdge catalog).withStore
    fun store => { store with edges := store.edges.clear }

def dropAllNodes (s : Session) : Session :=
  (s.withCatalog fun catalog => s.store.nodes.nodes.foldl Catalog.unbindNode catalog).withStore
    fun store => { store with nodes := store.nodes.clear }

/-- Removes all nodes and edges. Labels stay registered, and views stay, but empty. -/
def clear : Action Unit :=
  change fun s =>
    let hadNodes := !s.store.nodes.arena.isEmpty
    let hadEdges := !s.store.edges.arena.isEmpty
    let s := s.dropAllEdges.dropAllNodes
    let s := s.withStore fun store => { store with views := store.views.map (·.forgetAll) }
    (s.bumpIf hadNodes hadEdges).tell .cleared

def clearEdges : Action Unit :=
  change fun s =>
    let hadEdges := !s.store.edges.arena.isEmpty
    let s := s.dropAllEdges
    let s := s.withStore fun store =>
      { store with nodes := store.nodes.dropEdges, views := store.views.map (·.clearEdges) }
    (s.bumpIf false hadEdges).tell .edgesCleared

end PropertyGraph.Session
