/-!
# Kinds of graph

Which edges a graph admits.
-/

namespace PropertyGraph

inductive Kind where
  | directed
  | undirected
  | mixed
  deriving DecidableEq, Repr, Inhabited

namespace Kind

def admits : Kind → Bool → Bool
  | .directed, isDirected => isDirected
  | .undirected, isDirected => !isDirected
  | .mixed, _ => true

def name : Kind → String
  | .directed => "directed"
  | .undirected => "undirected"
  | .mixed => "mixed"

def title : Kind → String
  | .directed => "Directed"
  | .undirected => "Undirected"
  | .mixed => "Mixed"

def ofName? : String → Option Kind
  | "directed" => some .directed
  | "undirected" => some .undirected
  | "mixed" => some .mixed
  | _ => none

end Kind

end PropertyGraph
