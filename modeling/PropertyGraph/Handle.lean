import PropertyGraph.Fault
import PropertyGraph.Phase

/-!
# Handles

What an application holds in its hands: nodes, edges, views, observers and listeners. A handle is an
instance. Its serial number tells it from every other one, so two nodes with the same id are
different nodes; the rest of a handle is fixed when it is made. What changes over time (where an
element is stored, its properties, whether a view is destroyed) is in the `Catalog`.
-/

namespace PropertyGraph

structure Node where
  serial : Nat
  id : ElementId
  deriving DecidableEq, Repr, Inhabited

instance : Hashable Node := ⟨fun node => hash node.serial⟩

structure Edge where
  serial : Nat
  id : ElementId
  source : Node
  target : Node
  label : String
  directed : Bool
  deriving DecidableEq, Repr, Inhabited

instance : Hashable Edge := ⟨fun edge => hash edge.serial⟩

namespace Edge

def node (e : Edge) : EndRole → Node
  | .source => e.source
  | .target => e.target

def isLoop (e : Edge) : Bool := e.source == e.target

/-- The node at the other end, seen from a node at one end. -/
def otherNode? (e : Edge) (node : Node) : Option Node :=
  if node = e.source then some e.target
  else if node = e.target then some e.source
  else none

end Edge

/-- A view of a store: the store's token and the view's slot in it. The slot of a destroyed view may
be another view's later. -/
structure View where
  serial : Nat
  store : Nat
  slot : Nat
  hierarchical : Bool
  deriving DecidableEq, Repr, Inhabited

instance : Hashable View := ⟨fun view => hash view.serial⟩

/-- An observer of a graph, or of one view of it. -/
structure Observer where
  serial : Nat
  graph : Nat
  view : Option View
  /-- Whether the observer keeps what it saw, to say what has changed. -/
  keepsDiff : Bool
  deriving DecidableEq, Repr, Inhabited

instance : Hashable Observer := ⟨fun observer => hash observer.serial⟩

/-- A listener. A quiet one takes no note of what it hears. -/
structure Listener where
  serial : Nat
  quiet : Bool
  deriving DecidableEq, Repr, Inhabited

instance : Hashable Listener := ⟨fun listener => hash listener.serial⟩

/-- What a listener hears. Elements come with their slot at that moment, views with whether they
count as destroyed. -/
inductive Event where
  | nodeAdded (node : Node) (slot : Option Nat)
  | nodeRemoved (node : Node) (slot : Option Nat)
  | edgeAdded (edge : Edge) (slot : Option Nat)
  | edgeRemoved (edge : Edge) (slot : Option Nat)
  | viewDestroyed (view : View) (destroyed : Bool)
  | edgesCleared
  | cleared
  deriving DecidableEq, Repr

end PropertyGraph
