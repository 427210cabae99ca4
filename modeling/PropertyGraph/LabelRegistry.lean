import PropertyGraph.Arena
import Std.Data.HashMap

/-!
# Labels of edges

Every label in use has a dense id, and the ids of labels no longer registered are given out again.
The registry finds the id of a label and the label of an id.
-/

namespace PropertyGraph

/-- The registered labels: an arena from ids to labels, and the way back. -/
structure LabelRegistry where
  labels : Arena String := .linear
  ids : Std.HashMap String Nat := ∅

namespace LabelRegistry

def idOf? (r : LabelRegistry) (label : String) : Option Nat := r.ids[label]?

/-- Registers a label and gives its id; a registered label keeps the one it has. -/
def add (r : LabelRegistry) (label : String) : Except Fault Nat × LabelRegistry :=
  match r.ids[label]? with
  | some id => (.ok id, r)
  | none =>
    if maxLabels ≤ r.labels.size then (.error .labelsFull, r)
    else
      match r with
      | { labels, ids } =>
        match labels.alloc label with
        | (.ok id, labels) => (.ok id, { labels, ids := ids.insert label id })
        | (.error fault, labels) => (.error fault, { labels, ids })

/-- Registers labels in turn up to the first refusal, and gives the id of the last one. -/
def addAll (r : LabelRegistry) : List String → Except Fault (Option Nat) × LabelRegistry
  | [] => (.ok none, r)
  | [label] =>
    let (answer, r) := r.add label
    (some <$> answer, r)
  | label :: rest =>
    match r.add label with
    | (.ok _, r) => r.addAll rest
    | (.error fault, r) => (.error fault, r)

def remove (r : LabelRegistry) (label : String) : Option Nat × LabelRegistry :=
  match r.ids[label]? with
  | none => (none, r)
  | some id => (some id, { labels := (r.labels.free id).2, ids := r.ids.erase label })

def removeId (r : LabelRegistry) (id : Int) : Option String × LabelRegistry :=
  match r.labels.release id with
  | (none, _) => (none, r)
  | (some label, labels) => (some label, { labels, ids := r.ids.erase label })

def labelOf (r : LabelRegistry) (id : Int) : Except Fault String := do
  let slot ← r.labels.checkRange id
  match r.labels.get? slot with
  | some label => return label
  | none => throw (.labelNotRegistered id)

def contains (r : LabelRegistry) (label : String) : Bool := r.ids.contains label

def size (r : LabelRegistry) : Nat := r.labels.size

def isEmpty (r : LabelRegistry) : Bool := r.labels.isEmpty

def bound (r : LabelRegistry) : Nat := r.labels.length

def toList (r : LabelRegistry) : List (Nat × String) := r.labels.toList

def clear (r : LabelRegistry) : LabelRegistry := { labels := r.labels.clear }

end LabelRegistry

end PropertyGraph
