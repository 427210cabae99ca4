import PropertyGraph.Session.Walk

/-!
# Views of a store

A view is reached through its handle, which must be of this store and not destroyed. Elements that a
call brings into a view, or takes out of it, must be stored here.
-/

namespace PropertyGraph.Session

open PropertyGraph.Action

/-! ### Reaching a view -/

/-- The slot of a view of this store that is not destroyed. -/
def viewSlot (s : Session) (view : View) : Except Fault Nat :=
  if view.store ≠ s.store.token then .error .foreignView
  else if s.catalog.isDestroyed view then .error (.viewDestroyed view.slot)
  else .ok view.slot

def viewRecord (s : Session) (view : View) : Except Fault ViewRecord := do
  let slot ← s.viewSlot view
  match s.store.views.arena.get? slot with
  | some record => return record
  | none => throw (.viewMissing slot)

def editView {α : Type} (view : View) (edit : ViewRecord → Except Fault (α × ViewRecord)) :
    Action α := do
  let record ← ask (·.viewRecord view)
  let (answer, record) ← ask fun _ => edit record
  change (·.withStore fun store =>
    { store with views := store.views.modify view.slot fun _ => record })
  return answer

/-- Edits the record of a view by a step that is never refused and answers nothing. -/
def changeView (view : View) (f : ViewRecord → ViewRecord) : Action Unit :=
  editView view fun record => .ok ((), f record)

/-! ### Views come and go -/

/-- Makes a view whose members are those of the record given, if one is. -/
def placeView (hierarchical : Bool) (base : Option ViewRecord) : Action View := do
  let s ← get
  let view (slot : Nat) : View :=
    { serial := s.catalog.fresh, store := s.store.token, slot, hierarchical }
  let record (slot : Nat) : ViewRecord :=
    { view := view slot
      nodes := (base.map (·.nodes)).getD .empty
      edges := (base.map (·.edges)).getD .empty
      groups := if hierarchical then some {} else none }
  let slot ← onStore fun store =>
    match store.views.arena.allocWith record with
    | (answer, arena) => (answer, { store with views := { store.views with arena } })
  change (·.withCatalog fun catalog => { catalog with fresh := catalog.fresh + 1 })
  return view slot

def createView (hierarchical : Bool) : Action View := placeView hierarchical none

/-- Makes a view of the same kind with the same members as another. Groups are not copied. -/
def createViewFrom (base : View) : Action View := do
  let record ← ask (·.viewRecord base)
  placeView base.hierarchical (some record)

/-- Destroys a view and its observers, and selects the whole store if the view was visible. -/
def destroyView (view : View) : Action Unit := do
  let record ← ask (·.viewRecord view)
  change fun s =>
    (s.withStore fun store =>
      { store with
        views :=
          { arena := (store.views.arena.free view.slot).2
            visible := if store.views.visible = some view then none else store.views.visible } })
      |>.withCatalog fun catalog =>
        record.observers.foldl Catalog.destroyObserver
          { catalog with destroyedViews := catalog.destroyedViews.insert view }
  change fun s => s.tell (.viewDestroyed view (s.catalog.isDestroyed view))

def viewCount (s : Session) : Nat := s.store.views.arena.size

def setVisibleView (view : Option View) : Action Unit := do
  if let some view := view then discard <| ask (·.viewSlot view)
  change (·.withStore fun store => { store with views := { store.views with visible := view } })

/-! ### Members -/

def fillView (view : View) : Action Unit := do
  let store := (← get).store
  changeView view (·.fill store.nodes.slots store.edges.slots)

def clearView (view : View) : Action Unit := changeView view ViewRecord.clear

def viewAddNode (view : View) (node : Node) : Action Bool := do
  let slot ← ask (·.resolveNode node)
  editView view fun record => .ok (record.addNode slot)

def viewAddNodes (view : View) : List Node → Action Nat
  | [] => return 0
  | node :: rest => do
    let added ← viewAddNode view node
    let count ← viewAddNodes view rest
    return if added then count + 1 else count

def edgeRecord (s : Session) (edge : Edge) : Except Fault (Nat × EdgeSlot) := do
  let slot ← s.resolveEdge edge
  match s.store.edges.get? slot with
  | some record => return (slot, record)
  | none => throw (.edgeWithoutSlot edge.id)

def viewAddEdge (view : View) (edge : Edge) : Action Bool := do
  let (slot, e) ← ask (·.edgeRecord edge)
  editView view fun record => .ok (record.addEdge slot e.source e.target)

def viewRemoveNode (view : View) (node : Node) : Action Bool := do
  let slot ← ask (·.resolveNode node)
  let store := (← get).store
  let incident := ((store.nodes.get? slot).map store.incident).getD []
  editView view fun record => .ok (record.removeNode slot incident)

def viewRemoveEdge (view : View) (edge : Edge) : Action Bool := do
  let slot ← ask (·.resolveEdge edge)
  editView view fun record => .ok (record.removeEdge slot)

/-! ### What a view shows -/

def viewShowsNode (s : Session) (view : View) (node : Node) : Except Fault Bool := do
  let record ← s.viewRecord view
  return (← s.nodeSlot? node).any record.showsNode

def recordShowsEdge (s : Session) (record : ViewRecord) (slot : Nat) : Bool :=
  (s.store.edges.get? slot).any fun e => record.showsEdge slot e.source e.target

def viewShowsEdge (s : Session) (view : View) (edge : Edge) : Except Fault Bool := do
  let record ← s.viewRecord view
  return (← s.edgeSlot? edge).any (s.recordShowsEdge record)

def viewNodeCount (s : Session) (view : View) : Except Fault Nat := do
  return (← s.viewRecord view).nodeCount

def viewEdgeCount (s : Session) (view : View) : Except Fault Nat := do
  let record ← s.viewRecord view
  match record.groups with
  | none => return record.edges.size
  | some _ => return (record.edges.toList.filter (s.recordShowsEdge record)).length

def viewNodes (s : Session) (view : View) : Except Fault (List Node) := do
  let record ← s.viewRecord view
  return (s.store.nodes.slots.filter record.showsNode).filterMap s.store.node?

def viewEdges (s : Session) (view : View) : Except Fault (List Edge) := do
  let record ← s.viewRecord view
  return (s.store.edges.slots.filter (s.recordShowsEdge record)).filterMap s.store.edge?

def viewDegree (s : Session) (view : View) (node : Node) (direction : Direction) :
    Except Fault Nat := do
  let record ← s.viewRecord view
  let walk ← s.adjacency node direction none false
  return (walk.filter fun (_, edge) =>
    (s.catalog.edgeSlot? edge).any (s.recordShowsEdge record)).length

/-! ### Algebra -/

def viewUnion (view other : View) : Action Unit := do
  let other ← ask (·.viewRecord other)
  changeView view (·.union other.nodes other.edges)

def viewIntersection (view other : View) : Action Unit := do
  let other ← ask (·.viewRecord other)
  changeView view (·.inter other.nodes other.edges)

def viewComplement (view : View) : Action Unit := do
  let store := (← get).store
  let edges := store.edges.arena.toList.map fun (slot, e) => (slot, e.source, e.target)
  changeView view (·.complement store.nodes.slots edges)

/-! ### Interval and attributes -/

/-- Restricts the view to an interval; `none` lifts the restriction. -/
def setViewInterval (view : View) (interval : Option Interval) : Action Unit :=
  changeView view fun record => { record with interval := interval.getD .infinite }

def viewInterval (s : Session) (view : View) : Except Fault Interval := do
  return (← s.viewRecord view).interval

def setViewAttribute (view : View) (name : String) (value : Value) : Action (Option Value) :=
  editView view fun record =>
    let (old, attributes) := record.attributes.replace name value
    .ok (old, { record with attributes })

def viewAttribute (s : Session) (view : View) (name : String) : Except Fault (Option Value) := do
  return (← s.viewRecord view).attributes.get? name

def removeViewAttribute (view : View) (name : String) : Action (Option Value) :=
  editView view fun record =>
    let (old, attributes) := record.attributes.remove name
    .ok (old, { record with attributes })

end PropertyGraph.Session
