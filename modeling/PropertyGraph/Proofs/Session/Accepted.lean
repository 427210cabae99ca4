import PropertyGraph.Proofs.Session.Arrivals
import PropertyGraph.Proofs.Session.Departures
import PropertyGraph.Proofs.Session.Editing

/-!
# Calls that are accepted

What the invariants say of a call they say whether it is accepted or not. Here is when calls are
accepted, and exactly what they leave behind then.
-/

namespace PropertyGraph.Session

open PropertyGraph.Action

variable {s : Session} {order : List Nat} {node : Node} {edge : Edge} {slot source target : Nat}
  {view : View} {r r' : ViewRecord} {f f' : GroupForest Nat} {α : Type} {answer : α} {changed : Bool}

/-! ### Elements -/

theorem addNode_of_fresh {nodes : NodeTable} (hid : node.id.isAbsent = false)
    (hhome : s.nodeSlot? node = .ok none) (hfree : s.store.nodes.ids.contains node.id = false)
    (hadd : s.store.nodes.add node = (.ok slot, nodes)) :
    addNode node s = (.ok true,
      ((((s.withStore fun store => { store with nodes }).withCatalog
        (·.bindNode node ⟨s.store.token, slot⟩)).bumpIf true false).tell
          (.nodeAdded node ((s.catalog.bindNode node ⟨s.store.token, slot⟩).nodeSlot? node)))) := by
  rw [addNode]
  simp only [hid, hhome, hfree, hadd, bind_apply, ask_apply, get_apply, onStore_apply, change_apply,
    pure_apply, Option.isSome_none, Bool.false_eq_true, if_false]
  rfl

theorem addEdge_of_fresh (hid : edge.id.isAbsent = false) (hhome : s.edgeSlot? edge = .ok none)
    (hsource : s.endSlot edge .source = .ok source) (htarget : s.endSlot edge .target = .ok target)
    (hrefusal : s.refusal? edge source target = none) :
    addEdge edge s = placeEdge edge source target s := by
  rw [addEdge]
  simp only [hid, Bool.false_eq_true, if_false, bind_apply, ask_apply, hhome]
  simp only [Option.isSome_none, Bool.false_eq_true, if_false, bind_apply, ask_apply, hsource]
  simp only [htarget, get_apply, hrefusal]
  rfl

theorem removeNode_of_bare (hs : s.Consistent order) (hnode : s.store.node? slot = some node)
    (hbare : s.incidentEdges slot = []) :
    removeNode node s = (.ok true, ((s.forgetNode slot node).bumpIf true false).tell
      (.nodeRemoved node ((s.forgetNode slot node).catalog.nodeSlot? node))) := by
  have hnone : removeEach [] s = (.ok (), s) := rfl
  rw [removeNode]
  simp only [hs.nodeSlot?_eq hnode, bind_apply, ask_apply, get_apply, hbare]
  rw [← removeEach, hnone]
  simp only [bind_apply, change_apply, discard_eq, pure_apply, dropNode_forgotten hs hnode]

/-! ### Views -/

theorem viewRecord_of_live (htoken : view.store = s.store.token)
    (hlive : s.catalog.isDestroyed view = false)
    (hr : s.store.views.arena.get? view.slot = some r) : s.viewRecord view = .ok r := by
  have hslot : s.viewSlot view = .ok view.slot := by
    rw [viewSlot, if_neg (not_not.mpr htoken), hlive, if_neg Bool.false_ne_true]
  rw [viewRecord, hslot, ok_bind, hr]
  rfl

theorem viewRecord_setRecord (hr : s.viewRecord view = .ok r) (r' : ViewRecord) :
    (s.setRecord view r').viewRecord view = .ok r' := by
  obtain ⟨hstore, hlive⟩ := live_of_viewRecord hr
  refine viewRecord_of_live hstore hlive ?_
  rw [get?_setRecord (get?_of_viewRecord hr), if_pos rfl]

theorem editView_of_live {edit : ViewRecord → Except Fault (α × ViewRecord)}
    (hr : s.viewRecord view = .ok r) (hedit : edit r = .ok (answer, r')) :
    editView view edit s = (.ok answer, s.setRecord view r') := by
  rw [editView]
  simp only [hr, hedit, bind_apply, ask_apply]
  rfl

theorem fillView_of_live (hr : s.viewRecord view = .ok r) :
    fillView view s =
      (.ok (), s.setRecord view (r.fill s.store.nodes.slots s.store.edges.slots)) := by
  rw [fillView, bind_apply, get_apply]
  exact editView_of_live hr rfl

theorem viewAddNode_of_live (hnode : s.resolveNode node = .ok slot) (hr : s.viewRecord view = .ok r) :
    viewAddNode view node s =
      (.ok (!r.nodes.contains slot), s.setRecord view (r.addNode slot).2) := by
  rw [viewAddNode, bind_apply, ask_apply, hnode]
  exact editView_of_live hr rfl

theorem editGroups_of_live {edit : GroupForest Nat → Except Fault (α × Bool × GroupForest Nat)}
    (hr : s.viewRecord view = .ok r) (hf : r.groups = some f)
    (hedit : edit f = .ok (answer, changed, f')) :
    editGroups view edit s =
      (.ok answer, s.setRecord view ({ r with groups := some f' }.bumpIf changed changed)) := by
  refine editView_of_live hr ?_
  rw [groupsOf, hf]
  change (edit f >>= _) = _
  rw [hedit]
  rfl

theorem group_of_live {members : List Node} {slots : List Nat}
    (hnode : s.resolveNode node = .ok slot) (hmembers : s.resolveNodes members = .ok slots)
    (hr : s.viewRecord view = .ok r) (hf : r.groups = some f) (hgroup : f.group slot slots = .ok f') :
    group view node members s =
      (.ok (), s.setRecord view ({ r with groups := some f' }.bumpIf true true)) := by
  rw [group]
  simp only [bind_apply, ask_apply, hnode, hmembers]
  exact editGroups_of_live hr hf (by rw [hgroup])

theorem editGroupAt_of_live {edit : GroupForest Nat → Nat → Bool × GroupForest Nat}
    (hnode : s.resolveNode node = .ok slot) (hr : s.viewRecord view = .ok r) (hf : r.groups = some f)
    (hedit : edit f slot = (changed, f')) :
    editGroupAt view node edit s =
      (.ok changed, s.setRecord view ({ r with groups := some f' }.bumpIf changed changed)) := by
  rw [editGroupAt, bind_apply, ask_apply, hnode]
  exact editGroups_of_live hr hf (by rw [hedit])

end PropertyGraph.Session
