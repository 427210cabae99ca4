import PropertyGraph.Session

/-!
# Labels of a store

A label can be taken out of the registry only while no edge has it.
-/

namespace PropertyGraph.Session

open PropertyGraph.Action

def addLabel (label : String) : Action Nat :=
  onStore fun store =>
    match store.labels.add label with
    | (answer, labels) => (answer, { store with labels })

def edgeCountOf (s : Session) (label : String) : Nat :=
  match s.store.labels.idOf? label with
  | some id => s.store.edges.labelCount id
  | none => 0

def removeLabel (label : String) : Action (Option Nat) := do
  let inUse := (← get).edgeCountOf label
  if 0 < inUse then throw (.labelInUse label inUse)
  onStore fun store =>
    match store.labels.remove label with
    | (id, labels) => (.ok id, { store with labels })

def edgeCountOfId (s : Session) (id : Int) : Nat :=
  match s.store.labels.labelOf id with
  | .ok _ => (id.toNat?.map s.store.edges.labelCount).getD 0
  | .error _ => 0

def removeLabelId (id : Int) : Action (Option String) := do
  let inUse := (← get).edgeCountOfId id
  if 0 < inUse then throw (.labelInUse (toString id) inUse)
  onStore fun store =>
    match store.labels.removeId id with
    | (label, labels) => (.ok label, { store with labels })

end PropertyGraph.Session
