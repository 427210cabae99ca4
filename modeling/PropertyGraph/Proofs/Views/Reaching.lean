import PropertyGraph.Proofs.Views.Handles

/-!
# Calls through a view

A call that must find its view is refused, and leaves everything as it was, if the view is not
reached: if it is of another store or destroyed. A call that edits a view changes nothing beside it.
-/

namespace PropertyGraph

open PropertyGraph.Action

/-! ### Refusals -/

namespace Command

/-- The views that a call must find. Adding no nodes needs no view, and an observer whose view is
not found is not attached. -/
def seeks : Command → List View
  | .viewAddNodes _ [] | .detachObserver _ => []
  | command => command.views

def nodes : Command → List Node
  | .viewAddNode _ node | .viewRemoveNode _ node | .ungroup _ node | .collapse _ node
  | .expand _ node => [node]
  | .viewAddNodes _ nodes => nodes
  | .group _ node members => node :: members
  | _ => []

def edges : Command → List Edge
  | .viewAddEdge _ edge | .viewRemoveEdge _ edge => [edge]
  | _ => []

def edited? : Command → Option View
  | .destroyView view | .fillView view | .clearView view | .viewAddNode view _
  | .viewAddNodes view _ | .viewAddEdge view _ | .viewRemoveNode view _ | .viewRemoveEdge view _
  | .viewUnion view _ | .viewIntersection view _ | .viewComplement view | .setViewInterval view _
  | .setViewAttribute view _ _ | .removeViewAttribute view _ | .group view _ _ | .ungroup view _
  | .collapse view _ | .expand view _ => some view
  | _ => none

theorem mem_views_of_edited {command : Command} {view : View} (h : command.edited? = some view) :
    view ∈ command.views := by
  cases command <;> cases h <;> exact List.mem_cons_self

/-- Apart from one view, a call is given what is stored here and views that are reached. -/
structure InOrder (command : Command) (view : View) (s : Session) : Prop where
  nodes : ∀ node ∈ command.nodes, s.containsNode node = true
  edges : ∀ edge ∈ command.edges, s.containsEdge edge = true
  views : ∀ other ∈ command.views, other ≠ view → ∃ r, s.viewRecord other = .ok r

end Command

inductive ViewQuestion where
  | version
  | snapshot
  | observerCount
  | nodeCount
  | edgeCount
  | nodes
  | edges
  | interval
  | field (name : String)
  | showsNode (node : Node)
  | showsEdge (edge : Edge)
  | degree (node : Node) (direction : Direction)
  | isCollapsed (node : Node)
  | isHidden (node : Node)
  | parent (node : Node)
  | children (node : Node)
  | standIn (node : Node)
  | represented (node : Node)

namespace ViewQuestion

open Session

def put (s : Session) (view : View) : ViewQuestion → Except Fault Unit
  | .version => discard (s.versionOf (some view))
  | .snapshot => discard (s.snapshot (some view))
  | .observerCount => discard (s.observerCount (some view))
  | .nodeCount => discard (s.viewNodeCount view)
  | .edgeCount => discard (s.viewEdgeCount view)
  | .nodes => discard (s.viewNodes view)
  | .edges => discard (s.viewEdges view)
  | .interval => discard (s.viewInterval view)
  | .field name => discard (s.viewAttribute view name)
  | .showsNode node => discard (s.viewShowsNode view node)
  | .showsEdge edge => discard (s.viewShowsEdge view edge)
  | .degree node direction => discard (s.viewDegree view node direction)
  | .isCollapsed node => discard (s.isCollapsed view node)
  | .isHidden node => discard (s.isHidden view node)
  | .parent node => discard (s.groupParent view node)
  | .children node => discard (s.groupChildren view node)
  | .standIn node => discard (s.standIn view node)
  | .represented node => discard (s.represented view node)

/-- The node that a question about groups is about, which must be stored. -/
def grouped? : ViewQuestion → Option Node
  | .isCollapsed node | .isHidden node | .parent node | .children node | .standIn node
  | .represented node => some node
  | _ => none

end ViewQuestion

/-- The action is refused and leaves everything as it was. The reason is the one given, if the
arguments are in order. -/
def Action.Refuses {α : Type} (a : Action α) (s : Session) (inOrder : Prop) (reason : Fault) : Prop :=
  ∃ fault, a s = (.error fault, s) ∧ (inOrder → fault = reason)

namespace Action.Refuses

variable {α β : Type} {a : Action α} {f : α → Action β} {s : Session} {inOrder : Prop}
  {reason : Fault}

theorem bind (h : a.Refuses s inOrder reason) : (a >>= f).Refuses s inOrder reason := by
  obtain ⟨fault, hrun, hreason⟩ := h
  refine ⟨fault, ?_, hreason⟩
  rw [bind_apply, hrun]

theorem ask {question : Session → Except Fault α} (h : question s = .error reason) :
    (ask question).Refuses s inOrder reason :=
  ⟨reason, by rw [ask_apply, h], fun _ => rfl⟩

theorem ask_bind {question : Session → Except Fault α}
    (hanswer : inOrder → ∃ x, question s = .ok x)
    (hrest : ∀ x, question s = .ok x → (f x).Refuses s inOrder reason) :
    (Action.ask question >>= f).Refuses s inOrder reason := by
  cases hx : question s with
  | error fault =>
    refine ⟨fault, by rw [bind_apply, ask_apply, hx], fun h => ?_⟩
    obtain ⟨x, hok⟩ := hanswer h
    cases hx.symm.trans hok
  | ok x =>
    obtain ⟨fault, hrun, hreason⟩ := hrest x hx
    exact ⟨fault, by rw [bind_apply, ask_apply, hx]; exact hrun, hreason⟩

theorem get_bind {f : Session → Action β} (h : (f s).Refuses s inOrder reason) :
    Refuses (get >>= f) s inOrder reason := by
  obtain ⟨fault, hrun, hreason⟩ := h
  exact ⟨fault, by rw [bind_apply]; exact hrun, hreason⟩

end Action.Refuses

namespace Session

variable {α : Type} {s s' s'' : Session} {order : List Nat} {view : View} {node : Node} {edge : Edge}
  {inOrder : Prop} {reason : Fault}

theorem exists_resolveNode (h : s.containsNode node = true) : ∃ slot, s.resolveNode node = .ok slot := by
  obtain ⟨slot, hslot⟩ := containsNode_iff_nodeSlot?.mp h
  refine ⟨slot, ?_⟩
  rw [resolveNode, hslot]
  rfl

theorem exists_resolveEdge (h : s.containsEdge edge = true) : ∃ slot, s.resolveEdge edge = .ok slot := by
  obtain ⟨slot, hslot⟩ := containsEdge_iff_edgeSlot?.mp h
  refine ⟨slot, ?_⟩
  rw [resolveEdge, hslot]
  rfl

theorem exists_edgeRecord (h : s.containsEdge edge = true) : ∃ x, s.edgeRecord edge = .ok x := by
  obtain ⟨slot, hslot⟩ := containsEdge_iff_edgeSlot?.mp h
  obtain ⟨e, he, -⟩ := Option.map_eq_some_iff.mp (edge?_of_edgeSlot? hslot)
  refine ⟨(slot, e), ?_⟩
  unfold edgeRecord resolveEdge
  rw [hslot]
  simp only [ok_bind, pure_bind, he]
  rfl

theorem exists_resolveNodes {nodes : List Node} (h : ∀ node ∈ nodes, s.containsNode node = true) :
    ∃ slots, s.resolveNodes nodes = .ok slots := by
  induction nodes with
  | nil => exact ⟨[], rfl⟩
  | cons node rest ih =>
    obtain ⟨slot, hslot⟩ := exists_resolveNode (h node List.mem_cons_self)
    obtain ⟨slots, hslots⟩ := ih fun other hother => h other (List.mem_cons_of_mem node hother)
    refine ⟨slot :: slots, ?_⟩
    rw [resolveNodes] at hslots ⊢
    rw [List.mapM_cons, hslot, ok_bind, hslots]
    rfl

section Unreached

variable (hslot : s.viewSlot view = .error reason)
include hslot

theorem viewRecord_of_unreached : s.viewRecord view = .error reason := by
  rw [viewRecord, hslot]
  rfl

theorem versionOf_of_unreached : s.versionOf (some view) = .error reason := by
  rw [versionOf, viewRecord_of_unreached hslot]
  rfl

theorem refuses_editView (edit : ViewRecord → Except Fault (α × ViewRecord)) :
    (editView view edit).Refuses s inOrder reason :=
  .bind (.ask (viewRecord_of_unreached hslot))

theorem refuses_editNode {edit : Nat → ViewRecord → Except Fault (α × ViewRecord)}
    (hnode : inOrder → s.containsNode node = true) :
    (ask (·.resolveNode node) >>= fun slot => editView view (edit slot)).Refuses s inOrder reason :=
  .ask_bind (fun h => exists_resolveNode (hnode h)) fun _ _ => refuses_editView hslot _

theorem refuses_act (command : Command) (hseeks : view ∈ command.seeks) :
    command.act.Refuses s (command.InOrder view s) reason := by
  cases command with
  | createViewFrom base =>
    cases List.mem_singleton.mp hseeks
    exact .bind (.ask (viewRecord_of_unreached hslot))
  | destroyView own =>
    cases List.mem_singleton.mp hseeks
    exact .bind (.ask (viewRecord_of_unreached hslot))
  | setVisibleView own =>
    cases Option.mem_toList.mp hseeks
    rcases setVisibleView_cases (some view) s with ⟨_, fault, hown, hfault, hrun⟩ | ⟨hreached, -⟩
    · cases hown
      exact ⟨fault, hrun, fun _ => Except.error.inj (hfault.symm.trans hslot)⟩
    · obtain ⟨_, hok⟩ := hreached view rfl
      cases hslot.symm.trans hok
  | fillView own =>
    cases List.mem_singleton.mp hseeks
    exact .get_bind (refuses_editView hslot _)
  | clearView own =>
    cases List.mem_singleton.mp hseeks
    exact refuses_editView hslot _
  | viewAddNode own node =>
    cases List.mem_singleton.mp hseeks
    exact refuses_editNode hslot fun h => h.nodes node List.mem_cons_self
  | viewAddNodes own nodes =>
    cases nodes with
    | nil => cases hseeks
    | cons node rest =>
      cases List.mem_singleton.mp hseeks
      exact .bind (refuses_editNode hslot fun h => h.nodes node List.mem_cons_self)
  | viewAddEdge own edge =>
    cases List.mem_singleton.mp hseeks
    exact .ask_bind (fun h => exists_edgeRecord (h.edges edge List.mem_cons_self))
      fun _ _ => refuses_editView hslot _
  | viewRemoveNode own node =>
    cases List.mem_singleton.mp hseeks
    exact .ask_bind (fun h => exists_resolveNode (h.nodes node List.mem_cons_self))
      fun _ _ => .get_bind (refuses_editView hslot _)
  | viewRemoveEdge own edge =>
    cases List.mem_singleton.mp hseeks
    exact .ask_bind (fun h => exists_resolveEdge (h.edges edge List.mem_cons_self))
      fun _ _ => refuses_editView hslot _
  | viewUnion own other | viewIntersection own other =>
    by_cases hother : other = view
    · subst hother
      exact .bind (.ask (viewRecord_of_unreached hslot))
    · cases (List.mem_pair.mp hseeks).resolve_right (Ne.symm hother)
      exact .ask_bind (fun h => h.views other (List.mem_cons_of_mem _ List.mem_cons_self) hother)
        fun _ _ => refuses_editView hslot _
  | viewComplement own =>
    cases List.mem_singleton.mp hseeks
    exact .get_bind (refuses_editView hslot _)
  | setViewInterval own interval =>
    cases List.mem_singleton.mp hseeks
    exact refuses_editView hslot _
  | setViewAttribute own name value =>
    cases List.mem_singleton.mp hseeks
    exact refuses_editView hslot _
  | removeViewAttribute own name =>
    cases List.mem_singleton.mp hseeks
    exact refuses_editView hslot _
  | group own node members =>
    cases List.mem_singleton.mp hseeks
    exact .ask_bind (fun h => exists_resolveNode (h.nodes node List.mem_cons_self)) fun _ _ =>
      .ask_bind (fun h => exists_resolveNodes fun member hmember =>
        h.nodes member (List.mem_cons_of_mem node hmember)) fun _ _ => refuses_editView hslot _
  | ungroup own node | collapse own node | expand own node =>
    cases List.mem_singleton.mp hseeks
    exact refuses_editNode hslot fun h => h.nodes node List.mem_cons_self
  | createObserver own keepsDiff =>
    cases Option.mem_toList.mp hseeks
    exact .bind (.ask (versionOf_of_unreached hslot))
  | poll observer =>
    refine .bind (.ask ?_)
    rw [Option.mem_toList.mp hseeks]
    exact versionOf_of_unreached hslot
  | detachObserver observer => cases hseeks
  | _ => cases hseeks

theorem perform_of_unreached (command : Command) (hviews : view ∈ command.views) :
    command.perform s = s := by
  by_cases hseeks : view ∈ command.seeks
  · obtain ⟨fault, hrun, -⟩ := refuses_act hslot command hseeks
    rw [Command.perform, hrun]
  · cases command with
    | viewAddNodes own nodes =>
      cases nodes with
      | nil => rfl
      | cons node rest => cases hseeks hviews
    | detachObserver observer =>
      change s.detachObserver observer = s
      rw [detachObserver, Option.mem_toList.mp hviews]
      simp only [viewRecord_of_unreached hslot]
    | _ => exact absurd hviews hseeks

theorem askGroups_of_unreached (node : Node) : ∃ fault,
    (∀ (α : Type) (question : GroupForest Nat → Nat → α),
      s.askGroups view node question = .error fault) ∧
      (s.containsNode node = true → fault = reason) := by
  cases hnode : s.resolveNode node with
  | error fault =>
    refine ⟨fault, fun α question => by rw [askGroups, hnode]; rfl, fun hstored => ?_⟩
    obtain ⟨slot, hok⟩ := exists_resolveNode hstored
    cases hnode.symm.trans hok
  | ok slot =>
    refine ⟨reason, fun α question => ?_, fun _ => rfl⟩
    rw [askGroups, hnode, ok_bind, viewGroups, viewRecord_of_unreached hslot]
    rfl

theorem put_of_unreached (question : ViewQuestion) : ∃ fault,
    question.put s view = .error fault ∧
      ((∀ node, question.grouped? = some node → s.containsNode node = true) → fault = reason) := by
  have hrecord := viewRecord_of_unreached hslot
  cases question with
  | isCollapsed node | isHidden node | parent node | children node | standIn node
  | represented node =>
    obtain ⟨fault, hfault, hreason⟩ := askGroups_of_unreached hslot node
    refine ⟨fault, ?_, fun hstored => hreason (hstored node rfl)⟩
    simp only [ViewQuestion.put, isCollapsed, isHidden, groupParent, groupChildren, standIn,
      represented, hfault]
    rfl
  | _ =>
    refine ⟨reason, ?_, fun _ => rfl⟩
    simp only [ViewQuestion.put, versionOf, snapshot, observerCount, viewNodeCount, viewEdgeCount,
      viewNodes, viewEdges, viewInterval, viewAttribute, viewShowsNode, viewShowsEdge, viewDegree,
      hrecord]
    rfl

end Unreached

/-! ### Edits -/

/-- Nothing changes but the record in one slot. -/
structure Confined (slot : Nat) (s s' : Session) : Prop where
  store : s'.store = { s.store with views := s'.store.views }
  catalog : s'.catalog = s.catalog
  record : ∀ i, i ≠ slot → s'.store.views.arena.get? i = s.store.views.arena.get? i
  visible : s'.store.views.visible = s.store.views.visible

namespace Confined

variable {slot : Nat}

theorem refl (slot : Nat) (s : Session) : Confined slot s s := ⟨rfl, rfl, fun _ _ => rfl, rfl⟩

theorem trans (h : Confined slot s s') (h' : Confined slot s' s'') : Confined slot s s'' where
  store := by rw [h'.store, h.store]
  catalog := h'.catalog.trans h.catalog
  record := fun i hi => (h'.record i hi).trans (h.record i hi)
  visible := h'.visible.trans h.visible

end Confined

theorem confined_editView (edit : ViewRecord → Except Fault (α × ViewRecord)) :
    (editView view edit).Leads s (Confined view.slot s) := by
  rw [Leads]
  rcases editView_cases view edit s with ⟨fault, h⟩ | ⟨r, answer, r', hrecord, _, h⟩
  · rw [h]
    exact .refl _ s
  · rw [h]
    refine ⟨rfl, rfl, fun i hi => ?_, rfl⟩
    rw [get?_setRecord (get?_of_viewRecord hrecord), if_neg hi]

theorem confined_viewAddNodes (view : View) (nodes : List Node) (s : Session) :
    Confined view.slot s (viewAddNodes view nodes s).2 := by
  induction nodes generalizing s with
  | nil => exact .refl _ s
  | cons node rest ih =>
    have hfirst : Confined view.slot s (viewAddNode view node s).2 :=
      Leads.ask_bind (P := Confined view.slot s) (.refl _ s) fun _ _ => confined_editView _
    rw [viewAddNodes]
    refine bind_snd (P := Confined view.slot s) hfirst fun added s' h => ?_
    rw [h] at hfirst
    exact Leads.map_answer (a := viewAddNodes view rest) (P := Confined view.slot s)
      (hfirst.trans (ih s')) _

theorem confined_perform (command : Command) (hedited : command.edited? = some view)
    (hkeeps : command ≠ .destroyView view) : Confined view.slot s (command.perform s) := by
  cases command with
  | destroyView own =>
    cases hedited
    exact absurd rfl hkeeps
  | fillView own | viewComplement own =>
    cases hedited
    exact Leads.get_bind (P := Confined view.slot s) (confined_editView _)
  | clearView own | setViewInterval own interval | setViewAttribute own name value
  | removeViewAttribute own name =>
    cases hedited
    exact confined_editView _
  | viewAddNodes own nodes =>
    cases hedited
    exact confined_viewAddNodes view nodes s
  | viewRemoveNode own node =>
    cases hedited
    exact Leads.ask_bind (P := Confined view.slot s) (.refl _ s) fun _ _ =>
      .get_bind (confined_editView _)
  | group own node members =>
    cases hedited
    exact Leads.ask_bind (P := Confined view.slot s) (.refl _ s) fun _ _ =>
      .ask_bind (.refl _ s) fun _ _ => confined_editView _
  | viewAddNode own node | viewAddEdge own edge | viewRemoveEdge own edge | viewUnion own other
  | viewIntersection own other | ungroup own node | collapse own node | expand own node =>
    cases hedited
    exact Leads.ask_bind (P := Confined view.slot s) (.refl _ s) fun _ _ => confined_editView _
  | _ => cases hedited

end Session

end PropertyGraph
