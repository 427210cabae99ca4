/-!
# Versions

A view, and the graph itself, counts the changes of its nodes and of its edges. The counters wrap
around in 32 bits and are compared for equality only.
-/

namespace PropertyGraph

structure Version where
  node : Int32 := 0
  edge : Int32 := 0
  deriving DecidableEq, Repr, Inhabited

namespace Version

def bumpNodes (v : Version) : Version := { v with node := v.node + 1 }

def bumpEdges (v : Version) : Version := { v with edge := v.edge + 1 }

/-- Counts a change of the nodes, of the edges, or both, where there was one. -/
def bumpIf (v : Version) (nodes edges : Bool) : Version :=
  let v := if nodes then v.bumpNodes else v
  if edges then v.bumpEdges else v

end Version

end PropertyGraph
