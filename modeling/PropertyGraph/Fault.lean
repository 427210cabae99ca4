import PropertyGraph.Decimal.Format
import PropertyGraph.ElementId
import PropertyGraph.Kind

/-!
# Faults

Why a call is refused. A fault says its cause; the wording is in `Fault.detail` alone, and
`Fault.kind` sorts the causes into the eight kinds that callers tell apart.
-/

namespace PropertyGraph

inductive EndRole where
  | source
  | target
  deriving DecidableEq, Repr

def maxLabels : Nat := 65534

inductive FaultKind where
  | nullInput
  | ownership
  | duplicate
  | notFound
  | capacity
  | concurrency
  | usage
  | config
  deriving DecidableEq, Repr

/-- The causes for which a call is refused. -/
inductive Fault where
  | emptyNodeId
  | emptyEdgeId
  | foreignNode (id : ElementId)
  | foreignEdge (id : ElementId)
  | foreignView
  | endNotStored (role : EndRole) (id : ElementId)
  | nodeIdTaken (id : ElementId)
  | edgeIdTaken (id : ElementId)
  | parallelEdge (source target label : Nat)
  | undirectedBetween (source target label : Nat)
  | garbageOutside (slot : Nat)
  | outOfRange (slot : Int) (length : Nat)
  | nodeNotStored (id : ElementId)
  | edgeNotStored (id : ElementId)
  | nodeWithoutSlot (id : ElementId)
  | edgeWithoutSlot (id : ElementId)
  | labelNotRegistered (label : Int)
  | viewMissing (slot : Nat)
  | arenaFull (length : Nat)
  | labelsFull
  | readHeld
  | writeNotHeld
  | wouldWait
  | edgeNotAdmitted (directed : Bool) (id : ElementId) (kind : Kind)
  | labelInUse (label : String) (edges : Nat)
  | viewDestroyed (slot : Nat)
  | viewNotHierarchical (slot : Nat)
  | groupCycle (member group : Int)
  | observerDestroyed
  | observerAlreadyDestroyed
  | observedGraphGone
  | diffNotKept
  | diffWithoutChange
  | viewIteratorReadOnly
  | iteratorReadOnly
  | removeWithoutNext
  | boundNotANumber
  | boundsInverted (low high : Float)
  | zeroNodeBlock
  | zeroEdgeBlock
  | configNotReadable
  deriving DecidableEq

def FaultKind.heading : FaultKind → String
  | .nullInput => "Null input"
  | .ownership => "Ownership error"
  | .duplicate => "Duplicate"
  | .notFound => "Not found"
  | .capacity => "Capacity exceeded"
  | .concurrency => "Concurrency error"
  | .usage => "Usage error"
  | .config => "Configuration error"

def EndRole.word : EndRole → String
  | .source => "source"
  | .target => "target"

namespace Fault

def kind : Fault → FaultKind
  | .emptyNodeId | .emptyEdgeId => .nullInput
  | .foreignNode _ | .foreignEdge _ | .foreignView | .endNotStored _ _ => .ownership
  | .nodeIdTaken _ | .edgeIdTaken _ | .parallelEdge _ _ _ | .undirectedBetween _ _ _ => .duplicate
  | .garbageOutside _ | .outOfRange _ _ | .nodeNotStored _ | .edgeNotStored _ | .nodeWithoutSlot _
  | .edgeWithoutSlot _ | .labelNotRegistered _ | .viewMissing _ => .notFound
  | .arenaFull _ | .labelsFull => .capacity
  | .readHeld | .writeNotHeld | .wouldWait => .concurrency
  | .edgeNotAdmitted _ _ _ | .labelInUse _ _ | .viewDestroyed _ | .viewNotHierarchical _
  | .groupCycle _ _ | .observerDestroyed | .observerAlreadyDestroyed | .observedGraphGone
  | .diffNotKept | .diffWithoutChange | .viewIteratorReadOnly | .iteratorReadOnly
  | .removeWithoutNext | .boundNotANumber | .boundsInverted _ _ => .usage
  | .zeroNodeBlock | .zeroEdgeBlock | .configNotReadable => .config

def detail : Fault → String
  | .emptyNodeId => "node id is empty"
  | .emptyEdgeId => "edge id is empty"
  | .foreignNode id => s!"node {id} belongs to another store"
  | .foreignEdge id => s!"edge {id} belongs to another store"
  | .foreignView => "view belongs to another store"
  | .endNotStored role id => s!"{role.word} node {id} is not stored in this graph"
  | .nodeIdTaken id => s!"node id {id} already exists"
  | .edgeIdTaken id => s!"edge id {id} already exists"
  | .parallelEdge source target label =>
    s!"an edge {source} -> {target} of type {label} already exists"
  | .undirectedBetween source target label =>
    s!"an undirected edge already connects {source} and {target} with type {label}"
  | .garbageOutside slot => s!"garbage slot {slot} outside the arena"
  | .outOfRange slot length => s!"store id {slot} is out of range 0..{length}"
  | .nodeNotStored id => s!"node {id} is not in this store"
  | .edgeNotStored id => s!"edge {id} is not in this store"
  | .nodeWithoutSlot id => s!"node {id} has no slot"
  | .edgeWithoutSlot id => s!"edge {id} has no slot"
  | .labelNotRegistered label => s!"edge type {label} is not registered"
  | .viewMissing slot => s!"view {slot}"
  | .arenaFull length => s!"arena is full at {length} slots"
  | .labelsFull => s!"edge type registry is limited to {maxLabels} types"
  | .readHeld => "cannot acquire the write lock while holding a read lock"
  | .writeNotHeld => "operation requires the write lock"
  | .wouldWait => "no other thread can release the lock"
  | .edgeNotAdmitted directed id kind =>
    (if directed then "directed" else "undirected") ++
      s!" edge {id} cannot be added to a {kind.title} graph"
  | .labelInUse label edges => s!"edge type {label} is still used by {edges} edges"
  | .viewDestroyed slot => s!"view {slot} is destroyed"
  | .viewNotHierarchical slot => s!"view {slot} is not hierarchical"
  | .groupCycle member group =>
    s!"node {member} cannot join the group of {group}: it would contain itself"
  | .observerDestroyed => "observer is destroyed"
  | .observerAlreadyDestroyed => "observer is already destroyed"
  | .observedGraphGone => "observed graph no longer exists"
  | .diffNotKept => "observer was created without diff support"
  | .diffWithoutChange => "diff() requires a preceding has_changed() == true"
  | .viewIteratorReadOnly => "view iterators are read-only"
  | .iteratorReadOnly => "this iterator is read-only"
  | .removeWithoutNext => "remove() needs a preceding next()"
  | .boundNotANumber => "interval bounds must not be NaN"
  | .boundsInverted low high =>
    "interval low " ++ Decimal.plain.text low ++ " is greater than high " ++ Decimal.plain.text high
  | .zeroNodeBlock => "node_block_size must be positive"
  | .zeroEdgeBlock => "edge_block_size must be positive"
  | .configNotReadable => "the document is not a configuration"

def message (fault : Fault) : String :=
  fault.kind.heading ++ ": " ++ fault.detail

end Fault

end PropertyGraph
