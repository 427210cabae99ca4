import PropertyGraph.Session

/-!
# Walks

A cursor is a place in a walk over a store. It holds slots only, so the store may change between two
steps; what a step then finds is what the store holds at that moment. A walk is folded if it shows a
mutual pair only once, and a loop only once where it goes both ways.
-/

namespace PropertyGraph

/-! ### Around a node -/

/-- A place in a walk around a node: the phase, the label whose chain comes next, and the edge that
comes next on the chain being walked. -/
structure AdjacencyCursor where
  node : Nat
  direction : Direction
  /-- The id of the only label whose chains are walked, if there is one. -/
  label : Option Nat
  folded : Bool
  phase : Phase
  nextLabel : Nat
  next : Option Nat := none
  done : Bool := false
  deriving DecidableEq, Repr

namespace AdjacencyCursor

def start (node : Nat) (direction : Direction) (label : Option Nat) (folded : Bool) :
    AdjacencyCursor where
  node := node
  direction := direction
  label := label
  folded := folded
  phase := direction.firstPhase
  nextLabel := label.getD 0

/-- The beginning of a walk around a node over the edges with a label, or with any. A label that is
not registered has no chains, so its walk is over at once. -/
def around (s : Store) (node : Nat) (direction : Direction) (label : Option String)
    (folded : Bool) : AdjacencyCursor :=
  match label with
  | none => start node direction none folded
  | some label =>
    match s.labels.idOf? label with
    | some id => start node direction (some id) folded
    | none => { start node direction none folded with done := true }

/-- The first chain that is not empty, of those of the labels from `label` up to `stop`: its head,
and the label behind it. -/
def findHead (heads : Array (Option Nat)) (label stop : Nat) : Option (Nat × Nat) :=
  if label < stop then
    match heads[label]?.join with
    | some head => some (head, label + 1)
    | none => findHead heads (label + 1) stop
  else none
termination_by stop - label

/-- Begins the next chain of the present phase that is not empty. -/
def openInPhase (c : AdjacencyCursor) (n : NodeSlot) : Option AdjacencyCursor :=
  let heads := n.heads.get c.phase
  let stop := match c.label with
    | some label => label + 1
    | none => heads.size
  (findHead heads c.nextLabel stop).map fun (head, nextLabel) =>
    { c with next := some head, nextLabel }

def turn (c : AdjacencyCursor) : AdjacencyCursor :=
  { c with phase := .incoming, nextLabel := c.label.getD 0 }

/-- Begins the next chain that is not empty, going over to the incoming half if there is one to
come. -/
def openChain (c : AdjacencyCursor) (s : Store) : Option AdjacencyCursor := do
  let n ← s.nodes.get? c.node
  match c.openInPhase n with
  | some c => return c
  | none =>
    guard (c.phase = .outgoing ∧ c.direction = .both)
    c.turn.openInPhase n

/-- One step, folded or not: the edge, if the walk is not over. -/
def step (c : AdjacencyCursor) (s : Store) : Option (Nat × EdgeSlot) × AdjacencyCursor :=
  if c.done then (none, c)
  else
    let opened := if c.next.isSome then some c else c.openChain s
    match opened with
    | none => (none, { c with done := true })
    | some c =>
      match c.next.bind fun slot => (s.edges.get? slot).map (slot, ·) with
      | none => (none, { c with done := true })
      | some (slot, e) => (some (slot, e), { c with next := e.next? c.phase })

def isShown (c : AdjacencyCursor) (e : EdgeSlot) : Bool :=
  !c.folded || e.isShownFolded c.phase (c.direction == .both)

/-- Steps on, at most `steps` times, to the next edge that the walk shows. -/
def advanceWithin (s : Store) : Nat → AdjacencyCursor → Option (Nat × Phase) × AdjacencyCursor
  | 0, c => (none, { c with done := true })
  | steps + 1, c =>
    match c.step s with
    | (none, c) => (none, c)
    | (some (slot, e), c) =>
      if c.isShown e then (some (slot, c.phase), c) else advanceWithin s steps c

end AdjacencyCursor

/-- More steps than a walk around a node has: a chain is never longer than the edges have slots, and
between two edges shown a walk passes at most what is left of a chain and all chains of either
half. -/
def Store.walkBound (s : Store) : Nat := 3 * (s.edges.arena.length + 1)

def AdjacencyCursor.advance (c : AdjacencyCursor) (s : Store) :
    Option (Nat × Phase) × AdjacencyCursor :=
  advanceWithin s s.walkBound c

/-! ### Over all edges -/

def Store.showsEdge (s : Store) (slot : Nat) (folded : Bool) : Bool :=
  !folded || (s.edges.get? slot).any (·.isShownFolded .outgoing false)

/-- The first edge shown in a slot from `position` on, if there is one, and the position behind the
last edge that was looked at. -/
def Store.nextShown (s : Store) (folded : Bool) (position : Nat) : Option Nat × Nat :=
  match h : s.edges.arena.nextLive? position with
  | none => (none, position)
  | some slot =>
    if s.showsEdge slot folded then (some slot, slot + 1) else s.nextShown folded (slot + 1)
termination_by s.edges.arena.length - position
decreasing_by
  have := Arena.bounds_of_nextLive? h
  omega

/-- A place in a walk over edges: all of them in the order of their slots, or those around a
node. -/
inductive EdgeCursor where
  | arena (position : Nat) (folded : Bool)
  | adjacent (cursor : AdjacencyCursor)
  deriving DecidableEq, Repr

/-- The next edge of the walk with the phase it comes from. -/
def EdgeCursor.advance (c : EdgeCursor) (s : Store) : Option (Nat × Phase) × EdgeCursor :=
  match c with
  | .arena position folded =>
    let (slot, position) := s.nextShown folded position
    (slot.map (·, .outgoing), .arena position folded)
  | .adjacent cursor =>
    let (item, cursor) := cursor.advance s
    (item, .adjacent cursor)

namespace Session

/-! ### Whole walks -/

/-- The edges that a cursor comes to in a store that does not change, at most `steps` of them. -/
def collect (s : Session) : Nat → AdjacencyCursor → List (Phase × Edge)
  | 0, _ => []
  | steps + 1, c =>
    match c.advance s.store with
    | (none, _) => []
    | (some (slot, phase), c) =>
      match s.store.edge? slot with
      | some edge => (phase, edge) :: s.collect steps c
      | none => []

def adjacency (s : Session) (node : Node) (direction : Direction) (label : Option String)
    (folded : Bool) : Except Fault (List (Phase × Edge)) := do
  let slot ← s.resolveNode node
  return s.collect s.store.walkBound (.around s.store slot direction label folded)

def edgesInOrder (s : Session) (folded : Bool) : List Edge :=
  (s.store.edges.slots.filter (s.store.showsEdge · folded)).filterMap s.store.edge?

def degreeOf (s : Session) (node : Node) (direction : Direction) (label : String) :
    Except Fault Nat := do
  return (← s.adjacency node direction (some label) false).length

/-- The nodes of a list, each once, where it comes first. -/
def firstOccurrences (nodes : List Node) : List Node :=
  (nodes.foldl (fun (seen, found) node =>
    if seen.contains node then (seen, found) else (seen.insert node, found.push node))
    ((∅ : Std.HashSet Node), (#[] : Array Node))).2.toList

/-- The nodes at the other ends of the edges around a node, in the order of the walk. With a loop
the node is its own neighbour. -/
def neighbors (s : Session) (node : Node) (direction : Direction) : Except Fault (List Node) := do
  let walk ← s.adjacency node direction none false
  return firstOccurrences (walk.filterMap fun (_, edge) => edge.otherNode? node)

end Session

end PropertyGraph
