import PropertyGraph.Proofs.Arena.Slots
import PropertyGraph.Proofs.Store.Linked
import PropertyGraph.Store.Chain

/-!
# What hooking in and out does to slots

Hooking an edge in or out for one phase rewrites links of that phase and nothing else of any edge,
and of the nodes only the one at that end. The chains of the other phase, and all chains of other
nodes and labels, therefore stay as they are.
-/

namespace PropertyGraph

/-! ### Both sides of a thing -/

namespace Sides

variable {α : Type} {s : Sides α} {p q : Phase} {f : α → α}

@[simp]
theorem get_both (x : α) : (Sides.both x).get p = x := by cases p <;> rfl

@[simp]
theorem get_modify_self : (s.modify p f).get p = f (s.get p) := by cases p <;> rfl

theorem get_modify_of_ne (h : q ≠ p) : (s.modify p f).get q = s.get q := by
  cases p with
  | outgoing =>
    cases q with
    | outgoing => exact absurd rfl h
    | incoming => rfl
  | incoming =>
    cases q with
    | outgoing => rfl
    | incoming => exact absurd rfl h

end Sides

/-! ### Slots of edges and nodes -/

namespace EdgeSlot

/-- What does not change as long as the edge is stored. -/
def fixed (e : EdgeSlot) : Edge × Sides Nat × Nat := (e.edge, e.ends, e.label)

def relink (e : EdgeSlot) (p : Phase) (f : Link → Link) : EdgeSlot :=
  { e with links := e.links.modify p f }

variable {e : EdgeSlot} {p q : Phase} {f : Link → Link}

theorem setNext_eq_relink (next : Option Nat) :
    e.setNext p next = e.relink p ({ · with next }) := rfl

theorem setPrev_eq_relink (prev : Option Nat) :
    e.setPrev p prev = e.relink p ({ · with prev }) := rfl

theorem relink_relink (g : Link → Link) : (e.relink p f).relink p g = e.relink p (g ∘ f) := by
  cases p <;> rfl

theorem relink_id : e.relink p id = e := by cases p <;> rfl

theorem relink_self : (e.relink p fun link => { next := link.next, prev := link.prev }) = e :=
  relink_id

theorem relink_ite {c : Prop} [Decidable c] :
    (if c then e.relink p f else e) = e.relink p (if c then f else id) := by
  split
  · rfl
  · exact relink_id.symm

@[simp]
theorem fixed_relink : (e.relink p f).fixed = e.fixed := rfl

@[simp]
theorem isMutual_relink : (e.relink p f).isMutual = e.isMutual := rfl

end EdgeSlot

namespace NodeSlot

variable {n : NodeSlot} {p q : Phase} {label other : Nat} {head : Option Nat}

theorem head?_setHead_self :
    (n.setHead p label head).head? p other = if other = label then head else n.head? p other := by
  rw [head?, head?, setHead, Sides.get_modify_self]
  by_cases hin : label < (n.heads.get p).size
  · rw [if_pos hin, Array.getElem?_setIfInBounds]
    by_cases heq : label = other
    · subst heq
      simp [hin]
    · rw [if_neg heq, if_neg (Ne.symm heq)]
  · rw [if_neg hin]
    cases head with
    | none =>
      rw [if_pos (show (none : Option Nat).isNone by rfl)]
      split
      · next heq => rw [heq, Array.getElem?_eq_none (by omega)]; rfl
      · rfl
    | some first =>
      have hsize : ((n.heads.get p) ++ Array.replicate (label - (n.heads.get p).size) none).size =
          label := by
        rw [Array.size_append, Array.size_replicate]
        omega
      rw [if_neg (by simp), Array.getElem?_push, hsize]
      by_cases heq : other = label
      · rw [if_pos heq, if_pos heq]
        rfl
      · rw [if_neg heq, if_neg heq, Array.getElem?_append]
        split
        · rfl
        · next hge =>
          have hnone : (n.heads.get p)[other]? = none := Array.getElem?_eq_none (by omega)
          rw [hnone, Array.getElem?_replicate]
          split <;> rfl

@[simp]
theorem head?_raiseDegree : (n.raiseDegree q).head? p label = n.head? p label := rfl

@[simp]
theorem head?_lowerDegree : (n.lowerDegree q).head? p label = n.head? p label := rfl

end NodeSlot

namespace Store

variable {s : Store} {slot i n label : Nat} {p q : Phase} {e : EdgeSlot}

theorem edgeGet?_modifyEdge (f : EdgeSlot → EdgeSlot) :
    (s.modifyEdge slot f).edges.get? i =
      (s.edges.get? i).map fun x => if i = slot then f x else x := by
  change (s.edges.arena.modify slot f).get? i = (s.edges.arena.get? i).map _
  rw [Arena.get?_modify]
  by_cases heq : i = slot <;> simp [heq]

theorem nodeGet?_modifyNode (f : NodeSlot → NodeSlot) :
    (s.modifyNode n f).nodes.get? i =
      (s.nodes.get? i).map fun x => if i = n then f x else x := by
  change (s.nodes.arena.modify n f).get? i = (s.nodes.arena.get? i).map _
  rw [Arena.get?_modify]
  by_cases heq : i = n <;> simp [heq]

@[simp]
theorem edges_modifyNode (f : NodeSlot → NodeSlot) : (s.modifyNode n f).edges = s.edges := rfl

@[simp]
theorem nodes_modifyEdge (f : EdgeSlot → EdgeSlot) : (s.modifyEdge i f).nodes = s.nodes := rfl

/-! ### Hooking in -/

/-- Where the chain begins on which an edge is put or from which it is taken. -/
def headFor (s : Store) (e : EdgeSlot) (p : Phase) : Option Nat :=
  (s.nodes.get? (e.ends.get p)).bind (·.head? p e.label)

theorem edgeGet?_hook :
    (s.hook slot e p).edges.get? i = (s.edges.get? i).map (·.relink p fun link =>
      { next := if i = slot then s.headFor e p else link.next
        prev := if s.headFor e p = some i then some slot else link.prev }) := by
  simp only [hook, edges_modifyNode]
  rw [← headFor]
  cases s.headFor e p with
  | none =>
    rw [edgeGet?_modifyEdge]
    simp only [EdgeSlot.setNext_eq_relink, EdgeSlot.relink_ite]
    congr 2
    funext x
    congr 1
    funext link
    by_cases heq : i = slot <;> simp [heq]
  | some first =>
    rw [edgeGet?_modifyEdge, edgeGet?_modifyEdge, Option.map_map]
    simp only [EdgeSlot.setNext_eq_relink, EdgeSlot.setPrev_eq_relink, EdgeSlot.relink_ite,
      Function.comp_def, EdgeSlot.relink_relink, Option.some.injEq]
    congr 1
    funext x
    congr 1
    funext link
    simp only [eq_comm (a := first)]
    split_ifs <;> rfl

theorem nodeGet?_hook :
    (s.hook slot e p).nodes.get? n = (s.nodes.get? n).map fun N =>
      if n = e.ends.get p then (N.setHead p e.label (some slot)).raiseDegree p else N := by
  rw [hook, nodeGet?_modifyNode]
  cases (s.nodes.get? (e.ends.get p)).bind (·.head? p e.label) <;> rfl

/-! ### Hooking out -/

theorem edgeGet?_unhook :
    (s.unhook e p).edges.get? i = (s.edges.get? i).map (·.relink p fun link =>
      { next := if e.prev? p = some i then e.next? p else link.next
        prev := if e.next? p = some i then e.prev? p else link.prev }) := by
  rw [unhook]
  cases hprev : e.prev? p <;> cases hnext : e.next? p <;>
    simp only [edges_modifyNode, edgeGet?_modifyEdge, Option.map_map, EdgeSlot.setNext_eq_relink,
      EdgeSlot.setPrev_eq_relink, EdgeSlot.relink_ite, Function.comp_def, EdgeSlot.relink_relink,
      Option.some.injEq, reduceCtorEq, if_false]
  case none.none => simp [EdgeSlot.relink_self]
  all_goals
    congr 1
    funext x
    congr 1
    funext link
  case none.some next =>
    simp only [eq_comm (a := next)]
    split_ifs <;> rfl
  case some.none prev =>
    simp only [eq_comm (a := prev)]
    split_ifs <;> rfl
  case some.some prev next =>
    simp only [eq_comm (a := prev), eq_comm (a := next)]
    split_ifs <;> rfl

theorem nodeGet?_unhook :
    (s.unhook e p).nodes.get? n = (s.nodes.get? n).map fun N =>
      if n = e.ends.get p then
        (if e.prev? p = none then N.setHead p e.label (e.next? p) else N).lowerDegree p
      else N := by
  rw [unhook]
  cases hprev : e.prev? p <;> cases hnext : e.next? p <;>
    simp only [nodes_modifyEdge, nodeGet?_modifyNode, Option.map_map, Function.comp_def, if_true,
      reduceCtorEq, if_false]
  all_goals
    congr 1
    funext N
    split_ifs <;> rfl

end Store

end PropertyGraph
