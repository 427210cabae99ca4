import PropertyGraph.Session.Elements
import PropertyGraph.Session.Groups
import PropertyGraph.Session.Labels
import PropertyGraph.Session.Observation

/-!
# Commands

The calls that may change a store, or what its observers remember.
-/

namespace PropertyGraph

inductive Command where
  | addNode (node : Node)
  | removeNode (node : Node)
  | addEdge (edge : Edge)
  | removeEdge (edge : Edge)
  | addNodes (nodes : List Node)
  | removeNodes (nodes : List Node)
  | retainNodes (keep : List Node)
  | addEdges (edges : List Edge)
  | removeEdges (edges : List Edge)
  | retainEdges (keep : List Edge)
  | clear
  | clearEdges
  | addLabel (label : String)
  | removeLabel (label : String)
  | removeLabelId (id : Int)
  | createView (hierarchical : Bool)
  | createViewFrom (base : View)
  | destroyView (view : View)
  | setVisibleView (view : Option View)
  | fillView (view : View)
  | clearView (view : View)
  | viewAddNode (view : View) (node : Node)
  | viewAddNodes (view : View) (nodes : List Node)
  | viewAddEdge (view : View) (edge : Edge)
  | viewRemoveNode (view : View) (node : Node)
  | viewRemoveEdge (view : View) (edge : Edge)
  | viewUnion (view other : View)
  | viewIntersection (view other : View)
  | viewComplement (view : View)
  | setViewInterval (view : View) (interval : Option Interval)
  | setViewAttribute (view : View) (name : String) (value : Value)
  | removeViewAttribute (view : View) (name : String)
  | group (view : View) (node : Node) (members : List Node)
  | ungroup (view : View) (node : Node)
  | collapse (view : View) (node : Node)
  | expand (view : View) (node : Node)
  | createObserver (view : Option View) (keepsDiff : Bool)
  | poll (observer : Observer)
  | detachObserver (observer : Observer)
  | registerListener (listener : Listener)
  | unregisterListener (listener : Listener)
  | setDefaults (provider : Option (String → Option Value))

namespace Command

def Answer : Command → Type
  | addNodes .. | removeNodes .. | retainNodes .. | viewAddNodes .. => Nat
  | addEdges .. | removeEdges .. | retainEdges .. | addLabel .. => Nat
  | removeLabel .. => Option Nat
  | removeLabelId .. => Option String
  | createView .. | createViewFrom .. => View
  | setViewAttribute .. | removeViewAttribute .. => Option Value
  | createObserver .. => Observer
  | clear | clearEdges | destroyView .. | setVisibleView .. | fillView .. | clearView .. => Unit
  | viewUnion .. | viewIntersection .. | viewComplement .. | setViewInterval .. | group .. => Unit
  | detachObserver .. | registerListener .. | setDefaults .. => Unit
  | _ => Bool

def act : (command : Command) → Action command.Answer
  | .addNode node => Session.addNode node
  | .removeNode node => Session.removeNode node
  | .addEdge edge => Session.addEdge edge
  | .removeEdge edge => Session.removeEdge edge
  | .addNodes nodes => Session.addNodes nodes
  | .removeNodes nodes => Session.removeNodes nodes
  | .retainNodes keep => Session.retainNodes keep
  | .addEdges edges => Session.addEdges edges
  | .removeEdges edges => Session.removeEdges edges
  | .retainEdges keep => Session.retainEdges keep
  | .clear => Session.clear
  | .clearEdges => Session.clearEdges
  | .addLabel label => Session.addLabel label
  | .removeLabel label => Session.removeLabel label
  | .removeLabelId id => Session.removeLabelId id
  | .createView hierarchical => Session.createView hierarchical
  | .createViewFrom base => Session.createViewFrom base
  | .destroyView view => Session.destroyView view
  | .setVisibleView view => Session.setVisibleView view
  | .fillView view => Session.fillView view
  | .clearView view => Session.clearView view
  | .viewAddNode view node => Session.viewAddNode view node
  | .viewAddNodes view nodes => Session.viewAddNodes view nodes
  | .viewAddEdge view edge => Session.viewAddEdge view edge
  | .viewRemoveNode view node => Session.viewRemoveNode view node
  | .viewRemoveEdge view edge => Session.viewRemoveEdge view edge
  | .viewUnion view other => Session.viewUnion view other
  | .viewIntersection view other => Session.viewIntersection view other
  | .viewComplement view => Session.viewComplement view
  | .setViewInterval view interval => Session.setViewInterval view interval
  | .setViewAttribute view name value => Session.setViewAttribute view name value
  | .removeViewAttribute view name => Session.removeViewAttribute view name
  | .group view node members => Session.group view node members
  | .ungroup view node => Session.ungroup view node
  | .collapse view node => Session.collapse view node
  | .expand view node => Session.expand view node
  | .createObserver view keepsDiff => Session.createObserver view keepsDiff
  | .poll observer => Session.poll observer
  | .detachObserver observer => Action.change (·.detachObserver observer)
  | .registerListener listener => Session.registerListener listener
  | .unregisterListener listener => Session.unregisterListener listener
  | .setDefaults provider => Session.setDefaults provider

/-- The session that a command leaves behind, whatever it answers. -/
def perform (command : Command) (s : Session) : Session := (command.act s).2

end Command

end PropertyGraph
