import PropertyGraph.Graph.Space
import PropertyGraph.Text.Quoted

/-!
# Diagnostic text

One line that shows a handle to whoever debugs: its fixed data and what the catalog knows of it.
-/

namespace PropertyGraph

namespace Diagnostics

def record (name : String) (fields : List (String × String)) : String :=
  name ++ " \x7b " ++ ", ".intercalate (fields.map fun (key, text) => key ++ ": " ++ text)
    ++ " \x7d"

def bool (value : Bool) : String := if value then "true" else "false"

/-- A slot; `-1` if there is none. -/
def slot (value : Option Nat) : String :=
  match value with
  | some slot => toString slot
  | none => "-1"

def id : ElementId → String
  | .int value => "Int(" ++ toString value ++ ")"
  | .str value => "Str(" ++ Text.diagnosticQuote value ++ ")"

end Diagnostics

open Diagnostics

namespace Catalog

def describeNode (c : Catalog) (node : Node) : String :=
  record "Node" [("id", id node.id), ("store_id", slot (c.nodeSlot? node))]

def describeEdge (c : Catalog) (edge : Edge) : String :=
  record "Edge"
    [("id", id edge.id), ("source", id edge.source.id), ("target", id edge.target.id),
      ("type", Text.diagnosticQuote edge.label), ("directed", bool edge.directed),
      ("store_id", slot (c.edgeSlot? edge))]

def describeView (c : Catalog) (view : View) : String :=
  record "View"
    [("store_id", toString view.slot), ("hierarchical", bool view.hierarchical),
      ("destroyed", bool (c.isDestroyed view))]

def describeObserver (c : Catalog) (observer : Observer) : String :=
  record "GraphObserver"
    [("view", match observer.view with
      | some view => "Some(" ++ c.describeView view ++ ")"
      | none => "None"),
      ("diff_enabled", bool observer.keepsDiff),
      ("destroyed", bool (c.watch observer).destroyed)]

end Catalog

def SharedGraph.describe (g : SharedGraph) : String :=
  "Graph \x7b locking: " ++ bool g.lock.enabled ++ ", .. \x7d"

end PropertyGraph
