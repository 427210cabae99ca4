import PropertyGraph.Graph.Space

/-!
# Histories of graphs

Graphs are opened, calls are made on them in any order, and between the calls things happen that touch
no store and no home, such as making handles, setting properties and locking. None is closed for good.
-/

namespace PropertyGraph.GraphSpace

inductive History : GraphSpace → Prop where
  | empty : History {}
  | opened (space : GraphSpace) (config : Config) (h : History space) :
    History (Graph.open_ config space).2
  | called (space : GraphSpace) (g : Graph) (command : Command) (h : History space) :
    History (g.run command.act space).2
  | elsewhere (space space' : GraphSpace) (h : History space)
    (hstores : ∀ g, (space'.session? g).map (·.store) = (space.session? g).map (·.store))
    (hnodes : space'.catalog.nodeHomes = space.catalog.nodeHomes)
    (hedges : space'.catalog.edgeHomes = space.catalog.edgeHomes) : History space'

end PropertyGraph.GraphSpace
