import PropertyGraph.Config
import PropertyGraph.LabelRegistry
import PropertyGraph.Store.EdgeTable
import PropertyGraph.Store.NodeTable
import PropertyGraph.Store.ViewTable

/-!
# Stores

A store holds the nodes, edges, labels and views of one graph, counts its changes, and knows who
observes it and who listens.
-/

namespace PropertyGraph

/-- The nodes, edges, labels and views of one graph. The token tells the store from every other. -/
structure Store where
  token : Nat
  config : Config
  nodes : NodeTable
  edges : EdgeTable
  labels : LabelRegistry := {}
  views : ViewTable := {}
  /-- The changes of the whole store, whatever the views show. -/
  version : Version := {}
  observers : List Observer := []
  listeners : List Listener := []
  /-- Where the default values of properties come from. The store only passes questions on. -/
  defaults : Option (String → Option Value) := none

namespace Store

def empty (token : Nat) (config : Config) : Store where
  token := token
  config := config
  nodes := .ofBlockSize config.nodeBlockSize
  edges := .ofBlockSize config.kind config.edgeBlockSize

def open? (token : Nat) (config : Config) : Except Fault Store := do
  config.validate
  return empty token config

def node? (s : Store) (slot : Nat) : Option Node := (s.nodes.get? slot).map (·.node)

def edge? (s : Store) (slot : Nat) : Option Edge := (s.edges.get? slot).map (·.edge)

def modifyNode (s : Store) (slot : Nat) (f : NodeSlot → NodeSlot) : Store :=
  { s with nodes := s.nodes.modify slot f }

def modifyEdge (s : Store) (slot : Nat) (f : EdgeSlot → EdgeSlot) : Store :=
  { s with edges := s.edges.modify slot f }

end Store

end PropertyGraph
