/-!
# Directions and phases

A walk around a node goes along its outgoing edges, its incoming edges, or first the ones and then
the others; the phase tells which half of it an edge comes from. What a node or an edge keeps for
either half it keeps as `Sides`, so that the two halves share every rule.
-/

namespace PropertyGraph

inductive Direction where
  | outgoing
  | incoming
  | both
  deriving DecidableEq, Repr, Inhabited

/-- The half of a walk that an edge comes from. A loop comes once from either. -/
inductive Phase where
  | outgoing
  | incoming
  deriving DecidableEq, Repr, Inhabited

def Direction.firstPhase : Direction → Phase
  | .incoming => .incoming
  | _ => .outgoing

structure Sides (α : Type) where
  outgoing : α
  incoming : α
  deriving DecidableEq, Repr

namespace Sides

variable {α : Type}

def both (x : α) : Sides α := ⟨x, x⟩

def get (s : Sides α) : Phase → α
  | .outgoing => s.outgoing
  | .incoming => s.incoming

def modify (s : Sides α) (phase : Phase) (f : α → α) : Sides α :=
  match phase with
  | .outgoing => { s with outgoing := f s.outgoing }
  | .incoming => { s with incoming := f s.incoming }

end Sides

end PropertyGraph
