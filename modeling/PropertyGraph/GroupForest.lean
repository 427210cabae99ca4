import Std.Data.HashMap
import Std.Data.HashSet

/-!
# Forests of groups

A node may stand for a group of nodes, its children, which may be groups themselves. Collapsing a
group hides everything beneath it, so a node is hidden exactly when one of its ancestors is
collapsed. The forest is kept in both directions: every child knows its parent, and every group its
children in order.
-/

namespace PropertyGraph

/-- A forest of groups over nodes of any type. -/
structure GroupForest (α : Type) [BEq α] [Hashable α] where
  parents : Std.HashMap α α := ∅
  members : Std.HashMap α (List α) := ∅
  collapsed : Std.HashSet α := ∅

namespace GroupForest

variable {α : Type} [BEq α] [Hashable α]

def parent? (f : GroupForest α) (node : α) : Option α := f.parents[node]?

def children (f : GroupForest α) (node : α) : List α := f.members.getD node []

def isGroup (f : GroupForest α) (node : α) : Bool := f.members.contains node

def isCollapsed (f : GroupForest α) (node : α) : Bool := f.collapsed.contains node

def isEmpty (f : GroupForest α) : Bool := f.members.isEmpty

def climb (f : GroupForest α) : Nat → α → List α
  | 0, _ => []
  | steps + 1, node =>
    match f.parent? node with
    | none => []
    | some parent => parent :: f.climb steps parent

/-- The ancestors of a node, nearest first. In a forest no node has more ancestors than there are
nodes with a parent. -/
def ancestors (f : GroupForest α) (node : α) : List α := f.climb f.parents.size node

def descend (f : GroupForest α) : Nat → α → List α
  | 0, _ => []
  | levels + 1, node =>
    -- The children come off a stack, so the last one is first.
    (f.children node).reverse.flatMap fun child => child :: f.descend levels child

/-- Everything below a node: each child before what is below it, the last child first. -/
def descendants (f : GroupForest α) (node : α) : List α := f.descend f.parents.size node

def isHidden (f : GroupForest α) (node : α) : Bool := (f.ancestors node).any f.isCollapsed

/-- The node that stands in for a node: its outermost collapsed ancestor, or itself. -/
def standIn (f : GroupForest α) (node : α) : α :=
  ((f.ancestors node).filter f.isCollapsed).getLastD node

/-- The nodes that a node stands in for when it is not hidden: itself, and everything below it if it
is collapsed. -/
def represented (f : GroupForest α) (node : α) : List α :=
  node :: if f.isCollapsed node then f.descendants node else []

def attach (f : GroupForest α) (group node : α) : GroupForest α :=
  { f with
    parents := f.parents.insert node group
    members := f.members.insert group (f.children group ++ [node]) }

/-- Takes a node out of its group. A group that loses its last child is a group no longer. -/
def detach (f : GroupForest α) (node : α) : GroupForest α :=
  match f.parent? node with
  | none => f
  | some group =>
    let rest := (f.children group).filter (· != node)
    if rest.isEmpty then
      { parents := f.parents.erase node
        members := f.members.erase group
        collapsed := f.collapsed.erase group }
    else
      { f with
        parents := f.parents.erase node
        members := f.members.insert group rest }

def move (f : GroupForest α) (group node : α) : GroupForest α := (f.detach node).attach group node

/-- Makes the members children of the group. A member that is the group or one of its ancestors
would come to contain itself: then nothing changes, and the member is given back. -/
def group (f : GroupForest α) (group : α) (members : List α) : Except α (GroupForest α) :=
  match members.find? fun member => member == group || (f.ancestors group).contains member with
  | some member => .error member
  | none => .ok (members.foldl (fun f member => f.move group member) f)

/-- Hands a child of a dissolved group to the group above, or makes it a root. -/
def handUp (above : Option α) (f : GroupForest α) (child : α) : GroupForest α :=
  match above with
  | some group => f.attach group child
  | none => { f with parents := f.parents.erase child }

/-- Dissolves a group: its children go to the group above, behind the children there. Says whether
there was a group. -/
def ungroup (f : GroupForest α) (group : α) : Bool × GroupForest α :=
  match f.members[group]? with
  | none => (false, f)
  | some children =>
    let f := { f with members := f.members.erase group, collapsed := f.collapsed.erase group }
    (true, children.foldl (handUp (f.parent? group)) f)

def collapse (f : GroupForest α) (group : α) : Bool × GroupForest α :=
  if f.isGroup group && !f.isCollapsed group then
    (true, { f with collapsed := f.collapsed.insert group })
  else (false, f)

def expand (f : GroupForest α) (group : α) : Bool × GroupForest α :=
  if f.isCollapsed group then (true, { f with collapsed := f.collapsed.erase group })
  else (false, f)

/-- Forgets a node. Its children become roots. -/
def remove (f : GroupForest α) (node : α) : GroupForest α :=
  let f := f.detach node
  let f := { f with collapsed := f.collapsed.erase node }
  match f.members[node]? with
  | none => f
  | some children =>
    { f with
      members := f.members.erase node
      parents := children.foldl (fun parents child => parents.erase child) f.parents }

def clear (_ : GroupForest α) : GroupForest α := {}

end GroupForest

end PropertyGraph
