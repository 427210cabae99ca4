import PropertyGraph.Session.Views

/-!
# Groups in hierarchical views

The groups of a view are kept by slots; here they are reached by nodes, which must be stored. Every
change of the groups counts as a change of the view's nodes and edges, since it changes what the
view shows.
-/

namespace PropertyGraph.Session

open PropertyGraph.Action

/-- The groups of a view, which must be hierarchical. -/
def groupsOf (record : ViewRecord) (view : View) : Except Fault (GroupForest Nat) :=
  match record.groups with
  | some groups => .ok groups
  | none => .error (.viewNotHierarchical view.slot)

def viewGroups (s : Session) (view : View) : Except Fault (GroupForest Nat) := do
  groupsOf (← s.viewRecord view) view

/-- Edits the groups of a view, counting a change if the edit says that there was one. -/
def editGroups {α : Type} (view : View)
    (edit : GroupForest Nat → Except Fault (α × Bool × GroupForest Nat)) : Action α :=
  editView view fun record => do
    let (answer, changed, groups) ← edit (← groupsOf record view)
    return (answer, { record with groups := some groups }.bumpIf changed changed)

def resolveNodes (s : Session) (nodes : List Node) : Except Fault (List Nat) :=
  nodes.mapM s.resolveNode

/-! ### Changes -/

def group (view : View) (node : Node) (members : List Node) : Action Unit := do
  let slot ← ask (·.resolveNode node)
  let members ← ask (·.resolveNodes members)
  editGroups view fun groups =>
    match groups.group slot members with
    | .ok groups => .ok ((), true, groups)
    | .error member => .error (.groupCycle member slot)

/-- Changes the groups at a node by a step that says whether it changed anything. -/
def editGroupAt (view : View) (node : Node)
    (edit : GroupForest Nat → Nat → Bool × GroupForest Nat) : Action Bool := do
  let slot ← ask (·.resolveNode node)
  editGroups view fun groups =>
    let (done, groups) := edit groups slot
    .ok (done, done, groups)

def ungroup (view : View) (node : Node) : Action Bool := editGroupAt view node GroupForest.ungroup

def collapse (view : View) (node : Node) : Action Bool := editGroupAt view node GroupForest.collapse

def expand (view : View) (node : Node) : Action Bool := editGroupAt view node GroupForest.expand

/-! ### Questions -/

def askGroups {α : Type} (s : Session) (view : View) (node : Node)
    (question : GroupForest Nat → Nat → α) : Except Fault α := do
  let slot ← s.resolveNode node
  return question (← s.viewGroups view) slot

def isCollapsed (s : Session) (view : View) (node : Node) : Except Fault Bool :=
  s.askGroups view node GroupForest.isCollapsed

def isHidden (s : Session) (view : View) (node : Node) : Except Fault Bool :=
  s.askGroups view node GroupForest.isHidden

def groupParent (s : Session) (view : View) (node : Node) : Except Fault (Option Node) := do
  return (← s.askGroups view node GroupForest.parent?).bind s.store.node?

def groupChildren (s : Session) (view : View) (node : Node) : Except Fault (List Node) := do
  return (← s.askGroups view node GroupForest.children).filterMap s.store.node?

def standIn (s : Session) (view : View) (node : Node) : Except Fault Node := do
  return (s.store.node? (← s.askGroups view node GroupForest.standIn)).getD node

def represented (s : Session) (view : View) (node : Node) : Except Fault (List Node) := do
  return (← s.askGroups view node GroupForest.represented).filterMap s.store.node?

end PropertyGraph.Session
