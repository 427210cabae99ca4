import PropertyGraph.Arena
import PropertyGraph.Catalog

/-!
# The edges of a store

A stored edge has a slot and lies on two chains, that of its source's outgoing edges and that of its
target's incoming edges with its label. Its slot holds its neighbours on either.
-/

namespace PropertyGraph

structure Link where
  next : Option Nat := none
  prev : Option Nat := none
  deriving DecidableEq, Repr

/-- A stored edge: the slots of its ends, the id of its label, whether it is half of a mutual pair,
and its neighbours on its two chains. -/
structure EdgeSlot where
  edge : Edge
  /-- The slot of the source under `outgoing`, that of the target under `incoming`. -/
  ends : Sides Nat
  label : Nat
  isMutual : Bool := false
  links : Sides Link := .both {}

namespace EdgeSlot

def source (e : EdgeSlot) : Nat := e.ends.outgoing

def target (e : EdgeSlot) : Nat := e.ends.incoming

def isLoop (e : EdgeSlot) : Bool := e.source == e.target

def next? (e : EdgeSlot) (phase : Phase) : Option Nat := (e.links.get phase).next

def prev? (e : EdgeSlot) (phase : Phase) : Option Nat := (e.links.get phase).prev

def setNext (e : EdgeSlot) (phase : Phase) (next : Option Nat) : EdgeSlot :=
  { e with links := e.links.modify phase fun link => { link with next } }

def setPrev (e : EdgeSlot) (phase : Phase) (prev : Option Nat) : EdgeSlot :=
  { e with links := e.links.modify phase fun link => { link with prev } }

/-- Whether a folded walk shows the edge. Of a mutual pair it shows the half whose source lies in
the higher slot, and where it goes both ways it shows a loop in the first phase only. -/
def isShownFolded (e : EdgeSlot) (phase : Phase) (bothWays : Bool) : Bool :=
  if e.isLoop then !(bothWays && phase == .incoming)
  else if e.isMutual then e.target < e.source
  else true

end EdgeSlot

/-- The stored edges; the slot of every id, and of every source, target and label; and counters. -/
structure EdgeTable where
  kind : Kind
  arena : Arena EdgeSlot
  ids : Std.HashMap ElementId Nat := ∅
  pairs : Std.HashMap (Nat × Nat × Nat) Nat := ∅
  labelCounts : Std.HashMap Nat Nat := ∅
  /-- The number of mutual pairs. -/
  mutualCount : Nat := 0
  loopCount : Nat := 0

namespace EdgeTable

def ofBlockSize (kind : Kind) (size : Nat) : EdgeTable := { kind, arena := .inBlocks size }

def get? (t : EdgeTable) (slot : Nat) : Option EdgeSlot := t.arena.get? slot

def modify (t : EdgeTable) (slot : Nat) (f : EdgeSlot → EdgeSlot) : EdgeTable :=
  { t with arena := t.arena.modify slot f }

def labelCount (t : EdgeTable) (label : Nat) : Nat := t.labelCounts.getD label 0

def foldedSize (t : EdgeTable) : Nat := t.arena.size - t.mutualCount

def find? (t : EdgeTable) (source target label : Nat) : Option Nat :=
  t.pairs[(source, target, label)]?

/-- The edge that connects a source to a target with a label: one that runs so, or an undirected
one that runs the other way. -/
def connecting? (t : EdgeTable) (source target label : Nat) : Option Nat :=
  match t.find? source target label with
  | some slot => some slot
  | none =>
    match t.kind with
    | .directed => none
    | .undirected => t.find? target source label
    | .mixed => do
      let reverse ← t.find? target source label
      let slot ← t.get? reverse
      if slot.edge.directed then none else some reverse

/-- Why an edge may not run from a source to a target with a label: one runs so already, or one runs
the other way and not both are directed. -/
def conflict? (t : EdgeTable) (source target label : Nat) (directed : Bool) : Option Fault :=
  if (t.find? source target label).isSome then some (.parallelEdge source target label)
  else if source = target then none
  else
    match (t.find? target source label).bind t.get? with
    | none => none
    | some reverse =>
      if directed && reverse.edge.directed then none
      else some (.undirectedBetween source target label)

/-- Gives an edge a slot, not yet on any chain. -/
def add (t : EdgeTable) (slot : EdgeSlot) : Except Fault Nat × EdgeTable :=
  match t.arena.alloc slot with
  | (answer, arena) => (answer, { t with arena })

def register (t : EdgeTable) (slot : Nat) (e : EdgeSlot) : EdgeTable :=
  { t with
    ids := t.ids.insert e.edge.id slot
    pairs := t.pairs.insert (e.source, e.target, e.label) slot
    labelCounts := t.labelCounts.insert e.label (t.labelCount e.label + 1)
    loopCount := if e.isLoop then t.loopCount + 1 else t.loopCount }

def remove (t : EdgeTable) (slot : Nat) (e : EdgeSlot) : EdgeTable :=
  { t with
    arena := (t.arena.free slot).2
    ids := t.ids.erase e.edge.id
    pairs := t.pairs.erase (e.source, e.target, e.label)
    labelCounts := t.labelCounts.insert e.label (t.labelCount e.label - 1)
    loopCount := if e.isLoop then t.loopCount - 1 else t.loopCount }

def clear (t : EdgeTable) : EdgeTable := { kind := t.kind, arena := t.arena.clear }

def edges (t : EdgeTable) : List Edge := t.arena.values.map (·.edge)

def slots (t : EdgeTable) : List Nat := t.arena.toList.map (·.1)

end EdgeTable

end PropertyGraph
