import PropertyGraph.Store

/-!
# Chains of edges

The edges with one label that leave a node form a chain, and so do those that enter it: the node's
slot holds the head, and every edge its neighbours. An edge is hooked in at the head of both its
chains, and unhooked without a search. A loop lies on both chains of its node.
-/

namespace PropertyGraph.Store

/-! ### Hooking in and out -/

/-- Puts an edge at the head of its chain of a phase. -/
def hook (s : Store) (slot : Nat) (e : EdgeSlot) (phase : Phase) : Store :=
  let node := e.ends.get phase
  let head := (s.nodes.get? node).bind (·.head? phase e.label)
  let s := s.modifyEdge slot (·.setNext phase head)
  let s := match head with
    | some first => s.modifyEdge first (·.setPrev phase (some slot))
    | none => s
  s.modifyNode node fun n => (n.setHead phase e.label (some slot)).raiseDegree phase

/-- Takes an edge off its chain of a phase: its neighbours become neighbours of each other. -/
def unhook (s : Store) (e : EdgeSlot) (phase : Phase) : Store :=
  let node := e.ends.get phase
  let s := match e.prev? phase with
    | some prev => s.modifyEdge prev (·.setNext phase (e.next? phase))
    | none => s.modifyNode node (·.setHead phase e.label (e.next? phase))
  let s := match e.next? phase with
    | some next => s.modifyEdge next (·.setPrev phase (e.prev? phase))
    | none => s
  s.modifyNode node (·.lowerDegree phase)

/-! ### Mutual pairs -/

/-- Marks two edges as a mutual pair, or no longer as one, and counts the pair at both ends. -/
def setMutual (s : Store) (slot reverse : Nat) (e : EdgeSlot) (paired : Bool) : Store :=
  let s := s.modifyEdge slot fun e => { e with isMutual := paired }
  let s := s.modifyEdge reverse fun e => { e with isMutual := paired }
  let s := s.modifyNode e.source (·.countMutual paired)
  let s := s.modifyNode e.target (·.countMutual paired)
  let count := s.edges.mutualCount
  { s with edges := { s.edges with mutualCount := if paired then count + 1 else count - 1 } }

/-- The directed edge that runs the other way between two different nodes with the same label. -/
def reverse? (s : Store) (e : EdgeSlot) : Option Nat :=
  if e.isLoop then none else s.edges.find? e.target e.source e.label

/-! ### Edges in and out of the store -/

/-- Links an edge that has a slot: hooks it in, pairs it with its reverse, and enters it in the
indexes. An undirected edge is never paired. -/
def link (s : Store) (slot : Nat) (e : EdgeSlot) : Store :=
  let s := s.hook slot e .outgoing
  let s := s.hook slot e .incoming
  let s := match s.reverse? e with
    | some reverse => if e.edge.directed then s.setMutual slot reverse e true else s
    | none => s
  { s with edges := s.edges.register slot e }

/-- Unlinks an edge and frees its slot. -/
def unlink (s : Store) (slot : Nat) (e : EdgeSlot) : Store :=
  let s := s.unhook e .outgoing
  let s := s.unhook e .incoming
  let s := match s.reverse? e with
    | some reverse => if e.isMutual then s.setMutual slot reverse e false else s
    | none => s
  { s with edges := s.edges.remove slot e }

/-! ### Reading chains -/

def chainFrom (s : Store) (phase : Phase) : Nat → Option Nat → List (Nat × EdgeSlot)
  | 0, _ => []
  | _, none => []
  | steps + 1, some slot =>
    match s.edges.get? slot with
    | none => []
    | some e => (slot, e) :: s.chainFrom phase steps (e.next? phase)

/-- All edges on the chains of a node for a phase, label by label. A chain is no longer than the
edges have slots. -/
def chains (s : Store) (n : NodeSlot) (phase : Phase) : List (Nat × EdgeSlot) :=
  (n.heads.get phase).toList.flatMap (s.chainFrom phase s.edges.arena.length)

/-- The slots of the edges at a node, a loop once. -/
def incident (s : Store) (n : NodeSlot) : List Nat :=
  (s.chains n .outgoing).map (·.1) ++
    ((s.chains n .incoming).filter fun (_, e) => !e.isLoop).map (·.1)

end PropertyGraph.Store
