import PropertyGraph.Graph.Space

/-!
# Iterators

An iterator walks over the nodes or the edges of a graph and owns a read hold from when it is made
until its guard is dropped. Each step looks at the store as it is at that moment. The element that
came last can be removed by a caller that holds the lock for writing; an iterator through a view is
read-only.
-/

namespace PropertyGraph

/-! ### Nodes -/

structure NodeIterator where
  /-- The read hold of the graph that is walked over. -/
  guard : Guard
  position : Nat := 0
  /-- The view through which the walk sees the graph. -/
  filter : Option View := none
  /-- The node that came last, until it is removed. -/
  current : Option Node := none
  deriving DecidableEq, Repr

namespace NodeIterator

def start (g : Graph) : GraphAction NodeIterator := do
  return { guard := ← Guard.take g .read }

def startThrough (sub : Subgraph) : GraphAction NodeIterator := do
  let guard ← Guard.take sub.graph .read
  let _ ← guard.ask (·.viewRecord sub.view)
  return { guard, filter := some sub.view }

/-- Whether the walk shows the node in a slot; none if its view is gone. -/
def shows? (it : NodeIterator) (s : Session) (slot : Nat) : Option Bool :=
  match it.filter with
  | none => some true
  | some view =>
    match s.viewRecord view with
    | .ok record => some (record.showsNode slot)
    | .error _ => none

/-- The next node in a store. The walk moves on even where its view is gone. -/
def seek (it : NodeIterator) (s : Session) : Option Node × NodeIterator :=
  match _h : s.store.nodes.arena.nextLive? it.position with
  | none => (none, it)
  | some slot =>
    let moved := { it with position := slot + 1 }
    match it.shows? s slot, s.store.node? slot with
    | some true, some node => (some node, { moved with current := some node })
    | some false, _ => moved.seek s
    | _, _ => (none, moved)
termination_by s.store.nodes.arena.length - it.position
decreasing_by
  have := Arena.bounds_of_nextLive? _h
  omega

def next (it : NodeIterator) (space : GraphSpace) : Option Node × NodeIterator :=
  match space.session? it.guard.graph with
  | some s => it.seek s
  | none => (none, it)

def rest (it : NodeIterator) (space : GraphSpace) : Nat → List Node
  | 0 => []
  | steps + 1 =>
    match it.next space with
    | (some node, it) => node :: it.rest space steps
    | (none, _) => []

def remove (it : NodeIterator) : StateM GraphSpace (Except Fault Bool × NodeIterator) :=
  fun space =>
    if it.filter.isSome then ((.error .viewIteratorReadOnly, it), space)
    else
      match it.guard.graph.checkWriter space, it.current with
      | (.error fault, space), _ => ((.error fault, it), space)
      | (.ok _, space), none => ((.error .removeWithoutNext, it), space)
      | (.ok _, space), some node =>
        let (answer, space) := it.guard.graph.run (Session.removeNode node) space
        ((answer, { it with current := none }), space)

end NodeIterator

/-! ### Edges -/

structure EdgeIterator where
  /-- The read hold of the graph that is walked over. -/
  guard : Guard
  cursor : EdgeCursor
  /-- The view through which the walk sees the graph. -/
  filter : Option View := none
  /-- The edge that came last, until it is removed. -/
  current : Option Edge := none
  /-- The phase from which the edge came that came last. -/
  phase : Option Phase := none
  deriving DecidableEq, Repr

namespace EdgeIterator

def start (g : Graph) (folded : Bool) : GraphAction EdgeIterator := do
  return { guard := ← Guard.take g .read, cursor := .arena 0 folded }

def startAround (g : Graph) (node : Node) (direction : Direction) (label : Option String)
    (folded : Bool) : GraphAction EdgeIterator := do
  let guard ← Guard.take g .read
  let cursor ← guard.ask fun s => do
    return AdjacencyCursor.around s.store (← s.resolveNode node) direction label folded
  return { guard, cursor := .adjacent cursor }

def startThrough (sub : Subgraph) : GraphAction EdgeIterator := do
  let guard ← Guard.take sub.graph .read
  let _ ← guard.ask (·.viewRecord sub.view)
  return { guard, cursor := .arena 0 false, filter := some sub.view }

def startAroundThrough (sub : Subgraph) (node : Node) (direction : Direction) :
    GraphAction EdgeIterator := do
  let guard ← Guard.take sub.graph .read
  let cursor ← guard.ask fun s => do
    discard <| s.viewRecord sub.view
    return AdjacencyCursor.around s.store (← s.resolveNode node) direction none false
  return { guard, cursor := .adjacent cursor, filter := some sub.view }

/-- Whether the walk shows the edge in a slot; none if its view is gone. -/
def shows? (it : EdgeIterator) (s : Session) (slot : Nat) : Option Bool :=
  match it.filter with
  | none => some true
  | some view =>
    match s.viewRecord view with
    | .ok record => some (s.recordShowsEdge record slot)
    | .error _ => none

/-- The next edge in a store, looking at no more than `steps` edges. -/
def seekWithin (s : Session) : Nat → EdgeIterator → Option Edge × EdgeIterator
  | 0, it => (none, it)
  | steps + 1, it =>
    match it.cursor.advance s.store with
    | (none, cursor) => (none, { it with cursor })
    | (some (slot, phase), cursor) =>
      let moved := { it with cursor }
      match s.store.edge? slot with
      | none => seekWithin s steps moved
      | some edge =>
        match it.shows? s slot with
        | none => (none, moved)
        | some false => seekWithin s steps moved
        | some true => (some edge, { moved with current := some edge, phase := some phase })

def seek (it : EdgeIterator) (s : Session) : Option Edge × EdgeIterator :=
  seekWithin s s.store.walkBound it

def next (it : EdgeIterator) (space : GraphSpace) : Option Edge × EdgeIterator :=
  match space.session? it.guard.graph with
  | some s => it.seek s
  | none => (none, it)

def rest (it : EdgeIterator) (space : GraphSpace) : Nat → List (Edge × Option Phase)
  | 0 => []
  | steps + 1 =>
    match it.next space with
    | (some edge, it) => (edge, it.phase) :: it.rest space steps
    | (none, _) => []

def remove (it : EdgeIterator) : StateM GraphSpace (Except Fault Bool × EdgeIterator) :=
  fun space =>
    if it.filter.isSome then ((.error .iteratorReadOnly, it), space)
    else
      match it.guard.graph.checkWriter space, it.current with
      | (.error fault, space), _ => ((.error fault, it), space)
      | (.ok _, space), none => ((.error .removeWithoutNext, it), space)
      | (.ok _, space), some edge =>
        let (answer, space) := it.guard.graph.run (Session.removeEdge edge) space
        ((answer, { it with current := none }), space)

end EdgeIterator

/-! ### Either kind -/

inductive Iterator where
  | nodes (it : NodeIterator)
  | edges (it : EdgeIterator)
  deriving DecidableEq, Repr

/-- What an iterator comes to: a node, or an edge with the phase from which it comes. -/
inductive Item where
  | node (node : Node)
  | edge (edge : Edge) (phase : Option Phase)
  deriving DecidableEq, Repr

namespace Iterator

def next (space : GraphSpace) : Iterator → Option Item × Iterator
  | .nodes it => (it.next space).map (·.map .node) .nodes
  | .edges it =>
    let (edge, it) := it.next space
    (edge.map (.edge · it.phase), .edges it)

def phase : Iterator → Option Phase
  | .nodes _ => none
  | .edges it => it.phase

def remove : Iterator → StateM GraphSpace (Except Fault Bool × Iterator)
  | .nodes it => return (← it.remove).map id .nodes
  | .edges it => return (← it.remove).map id .edges

def guard : Iterator → Guard
  | .nodes it => it.guard
  | .edges it => it.guard

end Iterator

/-! ### Whole walks -/

def NodeIterator.walk (start : GraphAction NodeIterator) : GraphAction (List Node) := do
  let it ← start
  let space ← get
  let bound := ((space.session? it.guard.graph).map (·.store.nodes.arena.length)).getD 0
  it.guard.drop
  return it.rest space bound

def EdgeIterator.walk (start : GraphAction EdgeIterator) :
    GraphAction (List (Edge × Option Phase)) := do
  let it ← start
  let space ← get
  let bound := ((space.session? it.guard.graph).map (·.store.walkBound)).getD 0
  it.guard.drop
  return it.rest space bound

/-! ### Queries -/

/-- What can be asked for with an iterator: nodes or edges, of the graph or as a view shows them, all
of them or those around a node. -/
inductive Query where
  | nodes
  | nodesThrough (view : View)
  | edges (folded : Bool)
  | edgesThrough (view : View)
  | around (node : Node) (direction : Direction) (label : Option String) (folded : Bool)
  | aroundThrough (view : View) (node : Node) (direction : Direction)

namespace Query

def start (g : Graph) : Query → GraphAction NodeIterator ⊕ GraphAction EdgeIterator
  | nodes => .inl (NodeIterator.start g)
  | nodesThrough view => .inl (NodeIterator.startThrough { graph := g, view })
  | edges folded => .inr (EdgeIterator.start g folded)
  | edgesThrough view => .inr (EdgeIterator.startThrough { graph := g, view })
  | around node direction label folded =>
    .inr (EdgeIterator.startAround g node direction label folded)
  | aroundThrough view node direction =>
    .inr (EdgeIterator.startAroundThrough { graph := g, view } node direction)

def iterator (q : Query) (g : Graph) : GraphAction Iterator :=
  match q.start g with
  | .inl start => .nodes <$> start
  | .inr start => .edges <$> start

def list (q : Query) (g : Graph) : GraphAction (List Item) :=
  match q.start g with
  | .inl start => List.map .node <$> NodeIterator.walk start
  | .inr start => List.map (fun x => .edge x.1 x.2) <$> EdgeIterator.walk start

end Query

end PropertyGraph
