import PropertyGraph.Arena
import PropertyGraph.Catalog
import PropertyGraph.GroupForest
import PropertyGraph.IdSet
import PropertyGraph.Interval

/-!
# The views of a store

A view filters the stored nodes and edges by two sets of slots. A hierarchical view also has groups,
and does not show what lies beneath a collapsed one.
-/

namespace PropertyGraph

/-- A live view. A flat view has no groups. An edge is a member only if its ends are. -/
structure ViewRecord where
  view : View
  nodes : IdSet := .empty
  edges : IdSet := .empty
  groups : Option (GroupForest Nat) := none
  interval : Interval := .infinite
  attributes : Fields Value := []
  version : Version := {}
  observers : List Observer := []

namespace ViewRecord

/-! ### What is visible -/

def hides (r : ViewRecord) (node : Nat) : Bool := r.groups.any (·.isHidden node)

def showsNode (r : ViewRecord) (node : Nat) : Bool := r.nodes.contains node && !r.hides node

def showsEdge (r : ViewRecord) (edge source target : Nat) : Bool :=
  r.edges.contains edge && !r.hides source && !r.hides target

def nodeCount (r : ViewRecord) : Nat :=
  match r.groups with
  | none => r.nodes.size
  | some groups => (r.nodes.toList.filter (!groups.isHidden ·)).length

/-! ### Slots named by callers

A caller may name a slot by any integer; a negative one is no member and not hidden. -/

def hasNode (r : ViewRecord) (node : Int) : Bool := node.toNat?.any r.nodes.contains

def hasEdge (r : ViewRecord) (edge : Int) : Bool := edge.toNat?.any r.edges.contains

def showsNamedNode (r : ViewRecord) (node : Int) : Bool := node.toNat?.any r.showsNode

def showsNamedEdge (r : ViewRecord) (edge source target : Int) : Bool :=
  r.hasEdge edge && !source.toNat?.any r.hides && !target.toNat?.any r.hides

/-! ### Changes of the members -/

def bumpIf (r : ViewRecord) (nodes edges : Bool) : ViewRecord :=
  { r with version := r.version.bumpIf nodes edges }

/-- Replaces the members, counting a change where they differ. -/
def setMembers (r : ViewRecord) (nodes edges : IdSet) : ViewRecord :=
  { r with nodes, edges, version := r.version.bumpIf (nodes ≠ r.nodes) (edges ≠ r.edges) }

/-- Adds a node. Says whether it was not a member. -/
def addNode (r : ViewRecord) (node : Nat) : Bool × ViewRecord :=
  (!r.nodes.contains node, r.setMembers (r.nodes.insert node) r.edges)

/-- Adds an edge between members. Says whether it was added. -/
def addEdge (r : ViewRecord) (edge source target : Nat) : Bool × ViewRecord :=
  if r.nodes.contains source && r.nodes.contains target then
    (!r.edges.contains edge, r.setMembers r.nodes (r.edges.insert edge))
  else (false, r)

/-- Takes a node out, and the edges at it. Says whether it was a member. -/
def removeNode (r : ViewRecord) (node : Nat) (incident : List Nat) : Bool × ViewRecord :=
  if r.nodes.contains node then
    (true, r.setMembers (r.nodes.erase node) (incident.foldl IdSet.erase r.edges))
  else (false, r)

def removeEdge (r : ViewRecord) (edge : Nat) : Bool × ViewRecord :=
  (r.edges.contains edge, r.setMembers r.nodes (r.edges.erase edge))

def fill (r : ViewRecord) (nodes edges : List Nat) : ViewRecord :=
  r.setMembers (nodes.foldl IdSet.insert r.nodes) (edges.foldl IdSet.insert r.edges)

def clear (r : ViewRecord) : ViewRecord := r.setMembers .empty .empty

def clearEdges (r : ViewRecord) : ViewRecord := r.setMembers r.nodes .empty

def union (r : ViewRecord) (nodes edges : IdSet) : ViewRecord :=
  r.setMembers (r.nodes.union nodes) (r.edges.union edges)

def inter (r : ViewRecord) (nodes edges : IdSet) : ViewRecord :=
  r.setMembers (r.nodes.inter nodes) (r.edges.inter edges)

/-- Exchanges members and others. An edge, given with its ends, becomes a member only if both ends
do. -/
def complement (r : ViewRecord) (nodes : List Nat) (edges : List (Nat × Nat × Nat)) : ViewRecord :=
  let others := (IdSet.ofList nodes).diff r.nodes
  let free := edges.filter fun (edge, source, target) =>
    !r.edges.contains edge && others.contains source && others.contains target
  r.setMembers others (IdSet.ofList (free.map (·.1)))

/-! ### What happens to the store -/

def forgetNode (r : ViewRecord) (node : Nat) : ViewRecord :=
  let r := r.setMembers (r.nodes.erase node) r.edges
  { r with groups := r.groups.map (·.remove node) }

def forgetEdge (r : ViewRecord) (edge : Nat) : ViewRecord := (r.removeEdge edge).2

def forgetAll (r : ViewRecord) : ViewRecord :=
  let r := r.clear
  { r with groups := r.groups.map (·.clear) }

end ViewRecord

/-- The live views, and the view that is selected as visible; `none` selects the whole store. -/
structure ViewTable where
  arena : Arena ViewRecord := .linear
  visible : Option View := none

namespace ViewTable

def records (t : ViewTable) : List ViewRecord := t.arena.values

def map (t : ViewTable) (f : ViewRecord → ViewRecord) : ViewTable :=
  { t with arena := t.arena.map f }

def modify (t : ViewTable) (slot : Nat) (f : ViewRecord → ViewRecord) : ViewTable :=
  { t with arena := t.arena.modify slot f }

end ViewTable

end PropertyGraph
