import PropertyGraph.Graph.Space
import PropertyGraph.Session.Lookup

/-!
# The calls on a graph

Every call that may change a graph makes its command, under the hold that the command asks for. A call
that only asks holds the lock for reading. A subgraph calls on its graph, for its view.
-/

namespace PropertyGraph

namespace Graph

/-! ### Changes -/

section

variable (g : Graph)

def addNode (node : Node) : GraphAction Bool := g.call (.addNode node)

def removeNode (node : Node) : GraphAction Bool := g.call (.removeNode node)

def addEdge (edge : Edge) : GraphAction Bool := g.call (.addEdge edge)

def removeEdge (edge : Edge) : GraphAction Bool := g.call (.removeEdge edge)

def addNodes (nodes : List Node) : GraphAction Nat := g.call (.addNodes nodes)

def removeNodes (nodes : List Node) : GraphAction Nat := g.call (.removeNodes nodes)

def retainNodes (keep : List Node) : GraphAction Nat := g.call (.retainNodes keep)

def addEdges (edges : List Edge) : GraphAction Nat := g.call (.addEdges edges)

def removeEdges (edges : List Edge) : GraphAction Nat := g.call (.removeEdges edges)

def retainEdges (keep : List Edge) : GraphAction Nat := g.call (.retainEdges keep)

def clear : GraphAction Unit := g.call .clear

def clearEdges : GraphAction Unit := g.call .clearEdges

def addLabel (label : String) : GraphAction Nat := g.call (.addLabel label)

def removeLabel (label : String) : GraphAction (Option Nat) := g.call (.removeLabel label)

def removeLabelId (id : Int) : GraphAction (Option String) := g.call (.removeLabelId id)

def createView (hierarchical : Bool) : GraphAction View := g.call (.createView hierarchical)

def createViewFrom (base : View) : GraphAction View := g.call (.createViewFrom base)

def destroyView (view : View) : GraphAction Unit := g.call (.destroyView view)

def setVisibleView (view : Option View) : GraphAction Unit := g.call (.setVisibleView view)

def registerListener (listener : Listener) : GraphAction Unit :=
  g.call (.registerListener listener)

def unregisterListener (listener : Listener) : GraphAction Bool :=
  g.call (.unregisterListener listener)

def setDefaults (provider : Option (String → Option Value)) : GraphAction Unit :=
  g.call (.setDefaults provider)

/-! ### Questions -/

def config : GraphAction Config := g.see (·.store.config)

def kind : GraphAction Kind := g.see (·.store.config.kind)

def version : GraphAction Version := g.see (·.store.version)

def containsNode (node : Node) : GraphAction Bool := g.see (·.containsNode node)

def nodeAt (slot : Int) : GraphAction (Option Node) := g.read (·.nodeAt slot)

def nodeById (id : ElementId) : GraphAction (Option Node) := g.see (·.nodeById? id)

def nodeCount : GraphAction Nat := g.see (·.nodeCount)

def containsEdge (edge : Edge) : GraphAction Bool := g.see (·.containsEdge edge)

def edgeAt (slot : Int) : GraphAction (Option Edge) := g.read (·.edgeAt slot)

def edgeById (id : ElementId) : GraphAction (Option Edge) := g.see (·.edgeById? id)

def getEdge (source target : Node) (label : String) : GraphAction (Option Edge) :=
  g.read (·.getEdge source target label)

def getEdgeOfAnyLabel (source target : Node) : GraphAction (Option Edge) :=
  g.read (·.getEdgeOfAnyLabel source target)

def hasEdge (source target : Node) (label : String) : GraphAction Bool :=
  g.read (·.hasEdge source target label)

def edgeCount : GraphAction Nat := g.see (·.edgeCount)

def edgeCountOf (label : String) : GraphAction Nat := g.see (·.edgeCountOf label)

def foldedEdgeCount : GraphAction Nat := g.see (·.foldedEdgeCount)

def mutualEdgeCount : GraphAction Nat := g.see (·.store.edges.mutualCount)

def loopCount : GraphAction Nat := g.see (·.store.edges.loopCount)

def neighbors (node : Node) (direction : Direction) : GraphAction (List Node) :=
  g.read (·.neighbors node direction)

def outDegree (node : Node) : GraphAction Nat := g.read (·.phaseDegree node .outgoing)

def inDegree (node : Node) : GraphAction Nat := g.read (·.phaseDegree node .incoming)

def degree (node : Node) : GraphAction Nat := g.read (·.degree node)

def mutualDegree (node : Node) : GraphAction Nat := g.read (·.mutualDegree node)

def foldedDegree (node : Node) : GraphAction Nat := g.read (·.foldedDegree node)

def degreeOf (node : Node) (direction : Direction) (label : String) : GraphAction Nat :=
  g.read (·.degreeOf node direction label)

def labelId (label : String) : GraphAction (Option Nat) := g.see (·.store.labels.idOf? label)

def labelOf (id : Int) : GraphAction String := g.read (·.store.labels.labelOf id)

def labelCount : GraphAction Nat := g.see (·.store.labels.size)

def viewCount : GraphAction Nat := g.see (·.viewCount)

def visibleView : GraphAction (Option View) := g.see (·.store.views.visible)

def observerCount (view : Option View) : GraphAction Nat := g.read (·.observerCount view)

def listenerCount : GraphAction Nat := g.see (·.listenerCount)

def defaultValue (name : String) : GraphAction (Option Value) := g.see (·.defaultValue name)

end

end Graph

namespace Subgraph

variable (sub : Subgraph)

/-! ### Changes through a view -/

def destroy : GraphAction Unit := sub.graph.destroyView sub.view

def select : GraphAction Unit := sub.graph.setVisibleView (some sub.view)

def fill : GraphAction Unit := sub.graph.call (.fillView sub.view)

def clear : GraphAction Unit := sub.graph.call (.clearView sub.view)

def addNode (node : Node) : GraphAction Bool := sub.graph.call (.viewAddNode sub.view node)

def addNodes (nodes : List Node) : GraphAction Nat := sub.graph.call (.viewAddNodes sub.view nodes)

def addEdge (edge : Edge) : GraphAction Bool := sub.graph.call (.viewAddEdge sub.view edge)

def removeNode (node : Node) : GraphAction Bool := sub.graph.call (.viewRemoveNode sub.view node)

def removeEdge (edge : Edge) : GraphAction Bool := sub.graph.call (.viewRemoveEdge sub.view edge)

def union (other : View) : GraphAction Unit := sub.graph.call (.viewUnion sub.view other)

def intersection (other : View) : GraphAction Unit := sub.graph.call (.viewIntersection sub.view other)

def complement : GraphAction Unit := sub.graph.call (.viewComplement sub.view)

def setInterval (interval : Option Interval) : GraphAction Unit :=
  sub.graph.call (.setViewInterval sub.view interval)

def setAttribute (name : String) (value : Value) : GraphAction (Option Value) :=
  sub.graph.call (.setViewAttribute sub.view name value)

def removeAttribute (name : String) : GraphAction (Option Value) :=
  sub.graph.call (.removeViewAttribute sub.view name)

def group (node : Node) (members : List Node) : GraphAction Unit :=
  sub.graph.call (.group sub.view node members)

def ungroup (node : Node) : GraphAction Bool := sub.graph.call (.ungroup sub.view node)

def collapse (node : Node) : GraphAction Bool := sub.graph.call (.collapse sub.view node)

def expand (node : Node) : GraphAction Bool := sub.graph.call (.expand sub.view node)

/-! ### Questions about a view -/

def version : GraphAction Version := sub.graph.read (·.versionOf (some sub.view))

def containsNode (node : Node) : GraphAction Bool := sub.graph.read (·.viewShowsNode sub.view node)

def containsEdge (edge : Edge) : GraphAction Bool := sub.graph.read (·.viewShowsEdge sub.view edge)

def nodeCount : GraphAction Nat := sub.graph.read (·.viewNodeCount sub.view)

def edgeCount : GraphAction Nat := sub.graph.read (·.viewEdgeCount sub.view)

def degree (node : Node) (direction : Direction) : GraphAction Nat :=
  sub.graph.read (·.viewDegree sub.view node direction)

def interval : GraphAction Interval := sub.graph.read (·.viewInterval sub.view)

def getAttribute (name : String) : GraphAction (Option Value) :=
  sub.graph.read (·.viewAttribute sub.view name)

def isCollapsed (node : Node) : GraphAction Bool := sub.graph.read (·.isCollapsed sub.view node)

def isHidden (node : Node) : GraphAction Bool := sub.graph.read (·.isHidden sub.view node)

def parent (node : Node) : GraphAction (Option Node) := sub.graph.read (·.groupParent sub.view node)

def children (node : Node) : GraphAction (List Node) :=
  sub.graph.read (·.groupChildren sub.view node)

def standIn (node : Node) : GraphAction Node := sub.graph.read (·.standIn sub.view node)

def represented (node : Node) : GraphAction (List Node) :=
  sub.graph.read (·.represented sub.view node)

end Subgraph

end PropertyGraph
