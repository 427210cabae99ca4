import PropertyGraph.Arena
import PropertyGraph.Catalog

/-!
# The nodes of a store

A stored node has a slot, and in it the heads of its chains: for every label and either phase the
edge with which the chain begins.
-/

namespace PropertyGraph

/-- A stored node. The head of the chain of a label stands at the label's id. -/
structure NodeSlot where
  node : Node
  heads : Sides (Array (Option Nat)) := .both #[]
  degrees : Sides Nat := .both 0
  /-- How many mutual pairs the node takes part in. -/
  mutualDegree : Nat := 0

namespace NodeSlot

def head? (n : NodeSlot) (phase : Phase) (label : Nat) : Option Nat :=
  (n.heads.get phase)[label]?.join

def setHead (n : NodeSlot) (phase : Phase) (label : Nat) (head : Option Nat) : NodeSlot :=
  { n with
    heads := n.heads.modify phase fun heads =>
      if label < heads.size then heads.setIfInBounds label head
      else if head.isNone then heads
      else (heads ++ Array.replicate (label - heads.size) none).push head }

def raiseDegree (n : NodeSlot) (phase : Phase) : NodeSlot :=
  { n with degrees := n.degrees.modify phase (· + 1) }

def lowerDegree (n : NodeSlot) (phase : Phase) : NodeSlot :=
  { n with degrees := n.degrees.modify phase (· - 1) }

def countMutual (n : NodeSlot) (paired : Bool) : NodeSlot :=
  { n with mutualDegree := if paired then n.mutualDegree + 1 else n.mutualDegree - 1 }

def degree (n : NodeSlot) : Nat := n.degrees.outgoing + n.degrees.incoming

def bare (n : NodeSlot) : NodeSlot := { node := n.node }

end NodeSlot

/-- The stored nodes, and the slot of every id. -/
structure NodeTable where
  arena : Arena NodeSlot
  ids : Std.HashMap ElementId Nat := ∅

namespace NodeTable

def ofBlockSize (size : Nat) : NodeTable := { arena := .inBlocks size }

def get? (t : NodeTable) (slot : Nat) : Option NodeSlot := t.arena.get? slot

def modify (t : NodeTable) (slot : Nat) (f : NodeSlot → NodeSlot) : NodeTable :=
  { t with arena := t.arena.modify slot f }

def add (t : NodeTable) (node : Node) : Except Fault Nat × NodeTable :=
  match t.arena.alloc { node } with
  | (.ok slot, arena) => (.ok slot, { arena, ids := t.ids.insert node.id slot })
  | (.error fault, arena) => (.error fault, { t with arena })

def remove (t : NodeTable) (node : Node) (slot : Nat) : NodeTable :=
  { arena := (t.arena.free slot).2, ids := t.ids.erase node.id }

def dropEdges (t : NodeTable) : NodeTable := { t with arena := t.arena.map NodeSlot.bare }

def clear (t : NodeTable) : NodeTable := { arena := t.arena.clear }

def nodes (t : NodeTable) : List Node := t.arena.values.map (·.node)

def slots (t : NodeTable) : List Nat := t.arena.toList.map (·.1)

end NodeTable

end PropertyGraph
