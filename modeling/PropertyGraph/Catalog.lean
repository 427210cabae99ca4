import PropertyGraph.Handle
import PropertyGraph.Value
import PropertyGraph.Version
import Std.Data.HashMap
import Std.Data.HashSet

/-!
# The catalog

What is known about handles, whichever store they are used with: where an element is stored, its
properties and weight, which views are destroyed, what observers last saw and what listeners heard.
An element has at most one home, so it is stored in at most one store.
-/

namespace PropertyGraph

structure Home where
  store : Nat
  slot : Nat
  deriving DecidableEq, Repr

/-- The members of a view, or of the whole store, at one time. -/
structure Snapshot where
  nodes : Std.HashSet Node := ∅
  edges : Std.HashSet Edge := ∅

/-- What came and went between two snapshots, each list in the order of the element ids. -/
structure Diff where
  addedNodes : List Node
  removedNodes : List Node
  addedEdges : List Edge
  removedEdges : List Edge
  deriving DecidableEq

namespace Diff

def sortedById {α : Type} (id : α → ElementId) (elements : List α) : List α :=
  elements.mergeSort fun a b => (compare (id a) (id b)).isLE

def between (before after : Snapshot) : Diff where
  addedNodes := sortedById Node.id (after.nodes.toList.filter (!before.nodes.contains ·))
  removedNodes := sortedById Node.id (before.nodes.toList.filter (!after.nodes.contains ·))
  addedEdges := sortedById Edge.id (after.edges.toList.filter (!before.edges.contains ·))
  removedEdges := sortedById Edge.id (before.edges.toList.filter (!after.edges.contains ·))

def isEmpty (d : Diff) : Bool :=
  d.addedNodes.isEmpty && d.removedNodes.isEmpty && d.addedEdges.isEmpty && d.removedEdges.isEmpty

end Diff

/-- What an observer remembers: the version it saw last, what was there then if it keeps that, and
the diff of its last positive poll until it is taken. -/
structure Watch where
  destroyed : Bool := false
  last : Version := {}
  snapshot : Snapshot := {}
  pending : Option Diff := none

/-- What is known about handles. `fresh` is the serial number of the next one. -/
structure Catalog where
  fresh : Nat := 0
  nodeHomes : Std.HashMap Node Home := ∅
  edgeHomes : Std.HashMap Edge Home := ∅
  nodeFields : Std.HashMap Node (Fields Value) := ∅
  edgeFields : Std.HashMap Edge (Fields Value) := ∅
  weights : Std.HashMap Edge Float := ∅
  destroyedViews : Std.HashSet View := ∅
  watches : Std.HashMap Observer Watch := ∅
  events : Std.HashMap Listener (Array Event) := ∅

namespace Catalog

/-! ### Elements -/

/-- The slot in which the node is stored, in whichever store. -/
def nodeSlot? (c : Catalog) (node : Node) : Option Nat := c.nodeHomes[node]?.map (·.slot)

def edgeSlot? (c : Catalog) (edge : Edge) : Option Nat := c.edgeHomes[edge]?.map (·.slot)

def bindNode (c : Catalog) (node : Node) (home : Home) : Catalog :=
  { c with nodeHomes := c.nodeHomes.insert node home }

def unbindNode (c : Catalog) (node : Node) : Catalog :=
  { c with nodeHomes := c.nodeHomes.erase node }

def bindEdge (c : Catalog) (edge : Edge) (home : Home) : Catalog :=
  { c with edgeHomes := c.edgeHomes.insert edge home }

def unbindEdge (c : Catalog) (edge : Edge) : Catalog :=
  { c with edgeHomes := c.edgeHomes.erase edge }

def newNode (c : Catalog) (id : ElementId) (fields : Fields Value) : Node × Catalog :=
  let node : Node := { serial := c.fresh, id }
  (node, { c with fresh := c.fresh + 1, nodeFields := c.nodeFields.insert node fields })

def newEdge (c : Catalog) (id : ElementId) (source target : Node) (label : String)
    (directed : Bool) (fields : Fields Value) : Edge × Catalog :=
  let edge : Edge := { serial := c.fresh, id, source, target, label, directed }
  (edge, { c with fresh := c.fresh + 1, edgeFields := c.edgeFields.insert edge fields })

def newListener (c : Catalog) (quiet : Bool) : Listener × Catalog :=
  ({ serial := c.fresh, quiet }, { c with fresh := c.fresh + 1 })

def weight (c : Catalog) (edge : Edge) : Float := c.weights.getD edge 1.0

def setWeight (c : Catalog) (edge : Edge) (weight : Float) : Catalog :=
  { c with weights := c.weights.insert edge weight }

/-! ### Properties -/

def fieldsOfNode (c : Catalog) (node : Node) : Fields Value := c.nodeFields.getD node []

def fieldsOfEdge (c : Catalog) (edge : Edge) : Fields Value := c.edgeFields.getD edge []

def editNodeFields {β : Type} (c : Catalog) (node : Node)
    (edit : Fields Value → β × Fields Value) : β × Catalog :=
  let (answer, fields) := edit (c.fieldsOfNode node)
  (answer, { c with nodeFields := c.nodeFields.insert node fields })

def editEdgeFields {β : Type} (c : Catalog) (edge : Edge)
    (edit : Fields Value → β × Fields Value) : β × Catalog :=
  let (answer, fields) := edit (c.fieldsOfEdge edge)
  (answer, { c with edgeFields := c.edgeFields.insert edge fields })

/-! ### Views, observers, listeners -/

def isDestroyed (c : Catalog) (view : View) : Bool := c.destroyedViews.contains view

def watch (c : Catalog) (observer : Observer) : Watch := c.watches.getD observer {}

def modifyWatch (c : Catalog) (observer : Observer) (f : Watch → Watch) : Catalog :=
  { c with watches := c.watches.insert observer (f (c.watch observer)) }

def destroyObserver (c : Catalog) (observer : Observer) : Catalog :=
  c.modifyWatch observer fun watch => { watch with destroyed := true }

def heard (c : Catalog) (listener : Listener) : Array Event := c.events.getD listener #[]

def tell (event : Event) (c : Catalog) (listener : Listener) : Catalog :=
  if listener.quiet then c
  else { c with events := c.events.insert listener ((c.heard listener).push event) }

def takeEvents (c : Catalog) (listener : Listener) : Array Event × Catalog :=
  (c.heard listener, { c with events := c.events.erase listener })

end Catalog

end PropertyGraph
