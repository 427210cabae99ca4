import PropertyGraph.Session

/-!
# Looking up nodes and edges
-/

namespace PropertyGraph.Session

/-! ### Nodes -/

/-- The node in a slot; none if the slot is free. -/
def nodeAt (s : Session) (slot : Int) : Except Fault (Option Node) := do
  let slot ← s.store.nodes.arena.checkRange slot
  return s.store.node? slot

def nodeById? (s : Session) (id : ElementId) : Option Node :=
  s.store.nodes.ids[id]?.bind s.store.node?

def nodeCount (s : Session) : Nat := s.store.nodes.arena.size

/-! ### Edges -/

def edgeAt (s : Session) (slot : Int) : Except Fault (Option Edge) := do
  let slot ← s.store.edges.arena.checkRange slot
  return s.store.edge? slot

def edgeById? (s : Session) (id : ElementId) : Option Edge :=
  s.store.edges.ids[id]?.bind s.store.edge?

def edgeCount (s : Session) : Nat := s.store.edges.arena.size

def foldedEdgeCount (s : Session) : Nat := s.store.edges.foldedSize

def slotsOf (s : Session) (source target : Node) : Except Fault (Option (Nat × Nat)) := do
  let source ← s.nodeSlot? source
  let target ← s.nodeSlot? target
  return do return (← source, ← target)

/-- The edge with a label that connects a node to another. An undirected edge connects both ways. -/
def getEdge (s : Session) (source target : Node) (label : String) : Except Fault (Option Edge) := do
  match ← s.slotsOf source target with
  | none => return none
  | some (source, target) =>
    return do
      let id ← s.store.labels.idOf? label
      let slot ← s.store.edges.connecting? source target id
      s.store.edge? slot

/-- The edge that connects a node to another and whose label has the least id. -/
def getEdgeOfAnyLabel (s : Session) (source target : Node) : Except Fault (Option Edge) := do
  match ← s.slotsOf source target with
  | none => return none
  | some (source, target) =>
    return do
      let slot ← s.store.labels.toList.findSome? fun (id, _) =>
        s.store.edges.connecting? source target id
      s.store.edge? slot

def hasEdge (s : Session) (source target : Node) (label : String) : Except Fault Bool := do
  return (← s.getEdge source target label).isSome

/-! ### Degrees -/

def nodeRecord (s : Session) (node : Node) : Except Fault NodeSlot := do
  match s.store.nodes.get? (← s.resolveNode node) with
  | some record => return record
  | none => throw (.nodeWithoutSlot node.id)

def phaseDegree (s : Session) (node : Node) (phase : Phase) : Except Fault Nat := do
  return (← s.nodeRecord node).degrees.get phase

def degree (s : Session) (node : Node) : Except Fault Nat := do
  return (← s.nodeRecord node).degree

def mutualDegree (s : Session) (node : Node) : Except Fault Nat := do
  return (← s.nodeRecord node).mutualDegree

def foldedDegree (s : Session) (node : Node) : Except Fault Nat := do
  let record ← s.nodeRecord node
  return record.degree - record.mutualDegree

end PropertyGraph.Session
