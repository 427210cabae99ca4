import PropertyGraph.Session.Command

/-!
# Histories of a store

A store is opened, calls are made on it, and between them things happen elsewhere: handles are made,
properties are set, and other stores are at work with the same catalog. A history keeps the list of
the stored edges beside this, the one stored last in front. A refused call belongs to the history
with whatever it did before it was refused.
-/

namespace PropertyGraph

/-- The edges that a command is to store. -/
def Command.offered : Command → List Edge
  | .addEdge edge => [edge]
  | .addEdges edges => edges
  | _ => []

namespace Session

/-- The offered edges that were stored, the last one first. -/
def arrivals (s s' : Session) (offered : List Edge) : List Edge :=
  (offered.filter fun e => s'.containsEdge e && !s.containsEdge e).eraseDups.reverse

/-- The list of edges after a call: the edges that came with it, and behind them those that
stayed. -/
def ledger (s : Session) (command : Command) (edges : List Edge) : List Edge :=
  s.arrivals (command.perform s) command.offered ++ edges.filter (command.perform s).containsEdge

/-- A store with a past, and the list of its edges, the one stored last in front. -/
inductive History : Session → List Edge → Prop where
  | opened (token : Nat) (config : Config) (store : Store) (catalog : Catalog)
    (hopen : Store.open? token config = .ok store) : History { catalog, store } []
  | performed (s : Session) (edges : List Edge) (command : Command) (h : History s edges) :
    History (command.perform s) (s.ledger command edges)
  | elsewhere (s : Session) (edges : List Edge) (catalog : Catalog) (h : History s edges)
    (hnodes : ∀ (node : Node) n, s.catalog.nodeHomes[node]? = some ⟨s.store.token, n⟩ →
      catalog.nodeHomes[node]? = some ⟨s.store.token, n⟩)
    (hedges : ∀ (edge : Edge) i, s.catalog.edgeHomes[edge]? = some ⟨s.store.token, i⟩ →
      catalog.edgeHomes[edge]? = some ⟨s.store.token, i⟩) : History { s with catalog } edges

end Session

end PropertyGraph
