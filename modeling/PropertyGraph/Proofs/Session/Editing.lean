import PropertyGraph.Proofs.Session.Consistent
import PropertyGraph.Proofs.Session.Run
import PropertyGraph.Session.Groups
import PropertyGraph.Session.Observation

/-!
# Working on views

Calls on views neither store nor remove anything. A view is placed in a slot that was free, its slot
is given back when it is destroyed, and in between its record is edited.
-/

namespace PropertyGraph

namespace Session

open PropertyGraph.Action

variable {s s' s'' : Session} {order : List Nat} {node : Node} {edge : Edge} {slot : Nat} {view : View}
  {r r' : ViewRecord} {α : Type}

/-- From a session whose edges are in the given order, another with the same nodes and edges. A view
that is there before and afterwards was at most edited. -/
structure EditsFrom (order : List Nat) (s s' : Session) : Prop where
  node?_eq : ∀ n, s'.store.node? n = s.store.node? n
  fixed?_eq : ∀ i, s'.store.fixed? i = s.store.fixed? i
  edit : ∀ slot r r', s.store.views.arena.get? slot = some r →
    s'.store.views.arena.get? slot = some r' → ViewRecord.Edit s.store r r'
  consistent : s'.Consistent order

/-- Nothing comes or goes, and views are edited. -/
def Edits (s s' : Session) : Prop := ∀ order, s.Consistent order → EditsFrom order s s'

theorem edit_of_eq {o o' : Option ViewRecord} {t : Store} (h : o' = o) (hr : o = some r)
    (hr' : o' = some r') : ViewRecord.Edit t r r' := by
  rw [h, hr, Option.some.injEq] at hr'
  subst hr'
  exact .of_eq rfl rfl rfl

theorem Edits.of_quiet (h : Quiet s s') : Edits s s' := fun _ hs =>
  ⟨h.node?_eq, h.fixed?_eq, fun slot _ _ hr hr' => edit_of_eq (by rw [h.views]) hr hr',
    h.consistent hs⟩

theorem Edits.refl (s : Session) : Edits s s := of_quiet (.refl s)

theorem EditsFrom.setViews {views : ViewTable} (hs : s.Consistent order) (hvalid : views.arena.Valid)
    (hclosed : ∀ slot r, views.arena.get? slot = some r → r.Closed s.store)
    (hedit : ∀ slot r r', s.store.views.arena.get? slot = some r → views.arena.get? slot = some r' →
      ViewRecord.Edit s.store r r') :
    EditsFrom order s (s.withStore fun store => { store with views }) :=
  ⟨fun _ => rfl, fun _ => rfl, hedit, hs.sound.of_eq rfl rfl rfl, hs.node_home, hs.edge_home, hvalid,
    fun slot r hr => (hclosed slot r hr).mono (fun _ h => h) fun _ _ h => h⟩

theorem EditsFrom.trans_quiet (h : EditsFrom order s s') (hquiet : Quiet s' s'') :
    EditsFrom order s s'' where
  node?_eq := fun n => (hquiet.node?_eq n).trans (h.node?_eq n)
  fixed?_eq := fun i => (hquiet.fixed?_eq i).trans (h.fixed?_eq i)
  edit := fun slot r r' hr hr' => h.edit slot r r' hr (hquiet.views ▸ hr')
  consistent := hquiet.consistent h.consistent

theorem Edits.quiet_trans (hquiet : Quiet s s') (h : Edits s' s'') : Edits s s'' := by
  intro order hs
  obtain ⟨hnode, hfixed, hedit, hs''⟩ := h order (hquiet.consistent hs)
  refine ⟨fun n => (hnode n).trans (hquiet.node?_eq n), fun i => (hfixed i).trans (hquiet.fixed?_eq i),
    fun slot r r' hr hr' => ?_, hs''⟩
  exact (hedit slot r r' (hquiet.views ▸ hr) hr').of_store_eq hquiet.node?_eq hquiet.fixed?_eq

theorem live_of_viewSlot {slot : Nat} (h : s.viewSlot view = .ok slot) :
    view.store = s.store.token ∧ s.catalog.isDestroyed view = false ∧ view.slot = slot := by
  rw [viewSlot] at h
  by_cases hforeign : view.store ≠ s.store.token
  · rw [if_pos hforeign] at h
    cases h
  · rw [if_neg hforeign] at h
    by_cases hdestroyed : s.catalog.isDestroyed view
    · rw [if_pos hdestroyed] at h
      cases h
    · rw [if_neg hdestroyed] at h
      exact ⟨not_not.mp hforeign, Bool.eq_false_of_not_eq_true hdestroyed, Except.ok.inj h⟩

theorem get?_of_viewRecord (h : s.viewRecord view = .ok r) :
    s.store.views.arena.get? view.slot = some r := by
  rw [viewRecord] at h
  cases hslot : s.viewSlot view with
  | error fault =>
    rw [hslot] at h
    cases h
  | ok slot =>
    rw [hslot, ok_bind] at h
    rw [(live_of_viewSlot hslot).2.2]
    cases hget : s.store.views.arena.get? slot with
    | none =>
      rw [hget] at h
      cases h
    | some record =>
      rw [hget] at h
      cases h
      rfl

theorem live_of_viewRecord (h : s.viewRecord view = .ok r) :
    view.store = s.store.token ∧ s.catalog.isDestroyed view = false := by
  rw [viewRecord] at h
  cases hslot : s.viewSlot view with
  | error fault =>
    rw [hslot] at h
    cases h
  | ok slot =>
    obtain ⟨hstore, hlive, -⟩ := live_of_viewSlot hslot
    exact ⟨hstore, hlive⟩

def setRecord (s : Session) (view : View) (r : ViewRecord) : Session :=
  s.withStore fun store => { store with views := store.views.modify view.slot fun _ => r }

theorem get?_setRecord (hr : s.store.views.arena.get? view.slot = some r) (slot : Nat) :
    (s.setRecord view r').store.views.arena.get? slot =
      if slot = view.slot then some r' else s.store.views.arena.get? slot := by
  change (s.store.views.arena.modify view.slot fun _ => r').get? slot = _
  rw [Arena.get?_modify]
  split
  · next heq => rw [heq, hr, Option.map_some]
  · rfl

theorem editView_cases (view : View) (edit : ViewRecord → Except Fault (α × ViewRecord)) (s : Session) :
    (∃ fault, editView view edit s = (.error fault, s)) ∨
    ∃ r answer r', s.viewRecord view = .ok r ∧ edit r = .ok (answer, r') ∧
      editView view edit s = (.ok answer, s.setRecord view r') := by
  rw [editView]
  simp only [bind_apply, ask_apply]
  cases hrecord : s.viewRecord view with
  | error fault => exact .inl ⟨fault, rfl⟩
  | ok r =>
    simp only
    cases hdone : edit r with
    | error fault => exact .inl ⟨fault, rfl⟩
    | ok answer => exact .inr ⟨r, answer.1, answer.2, rfl, hdone, rfl⟩

theorem edits_editView {edit : ViewRecord → Except Fault (α × ViewRecord)}
    (hedit : ∀ order, s.Consistent order → ∀ r answer r', edit r = .ok (answer, r') →
      ViewRecord.Edit s.store r r') : (editView view edit).Leads s (Edits s) := by
  intro order hs
  rcases editView_cases view edit s with ⟨fault, h⟩ | ⟨r, answer, r', hrecord, hdone, h⟩
  · rw [h]
    exact Edits.refl s order hs
  · rw [h]
    have hr := get?_of_viewRecord hrecord
    have hedit := hedit order hs r answer r' hdone
    refine .setViews hs hs.views_valid.modify (fun slot x hx => ?_) fun slot x y hx hy => ?_
    · change (s.setRecord view r').store.views.arena.get? slot = some x at hx
      rw [get?_setRecord hr] at hx
      split at hx
      · cases hx
        exact hedit.closed (hs.closed _ r hr)
      · exact hs.closed slot x hx
    · change (s.setRecord view r').store.views.arena.get? slot = some y at hy
      rw [get?_setRecord hr] at hy
      split at hy
      · next heq =>
        rw [heq, hr] at hx
        cases hx
        cases hy
        exact hedit
      · exact edit_of_eq rfl hx hy

/-! ### Members -/

theorem edits_editView_ok {f : ViewRecord → α × ViewRecord}
    (hedit : ∀ order, s.Consistent order → ∀ r, ViewRecord.Edit s.store r (f r).2) :
    (editView view fun r => .ok (f r)).Leads s (Edits s) := by
  refine edits_editView fun order hs r answer r' hdone => ?_
  rw [Except.ok.injEq] at hdone
  have hedit := hedit order hs r
  rwa [hdone] at hedit

theorem edits_changeView {f : ViewRecord → ViewRecord}
    (hedit : ∀ order, s.Consistent order → ∀ r, ViewRecord.Edit s.store r (f r)) :
    (changeView view f).Leads s (Edits s) :=
  edits_editView_ok hedit

theorem node?_of_resolveNode (h : s.resolveNode node = .ok slot) : s.store.node? slot = some node := by
  rw [resolveNode] at h
  cases hslot : s.nodeSlot? node with
  | error fault =>
    rw [hslot] at h
    cases h
  | ok home =>
    rw [hslot] at h
    cases home with
    | none => cases h
    | some n =>
      cases h
      exact node?_of_nodeSlot? hslot

theorem get?_of_edgeRecord {e : EdgeSlot} (h : s.edgeRecord edge = .ok (slot, e)) :
    s.store.edges.get? slot = some e := by
  rw [edgeRecord] at h
  cases hresolve : s.resolveEdge edge with
  | error fault =>
    rw [hresolve] at h
    cases h
  | ok i =>
    rw [hresolve, ok_bind] at h
    cases hget : s.store.edges.get? i with
    | none =>
      rw [hget] at h
      cases h
    | some record =>
      rw [hget] at h
      cases h
      exact hget

theorem edits_fillView (view : View) (s : Session) : (fillView view).Leads s (Edits s) := by
  rw [fillView]
  refine .get_bind (edits_changeView fun order hs r => .fill (fun n => hs.sound.mem_nodeSlots) ?_)
  intro i hi
  obtain ⟨x, hx⟩ := Option.isSome_iff_exists.mp (hs.sound.mem_edgeSlots.mp hi)
  exact ⟨x, hx, fun p => by rw [hs.sound.node?_of_fixed? hx p]; rfl⟩

theorem edits_clearView (view : View) (s : Session) : (clearView view).Leads s (Edits s) :=
  edits_changeView fun _ _ _ => .clear

theorem edits_viewAddEdge (view : View) (edge : Edge) (s : Session) :
    (viewAddEdge view edge).Leads s (Edits s) := by
  rw [viewAddEdge]
  refine .ask_bind (.refl s) fun x hrecord => ?_
  have hx : s.store.fixed? x.1 = some x.2.fixed := by
    rw [Store.fixed?, get?_of_edgeRecord hrecord, Option.map_some]
  have hadd : ∀ r : ViewRecord, ViewRecord.Edit s.store r (r.addEdge x.1 x.2.source x.2.target).2 :=
    fun r => .addEdge hx
  exact edits_editView_ok fun _ _ r => hadd r

theorem edits_viewRemoveNode (view : View) (node : Node) (s : Session) :
    (viewRemoveNode view node).Leads s (Edits s) := by
  rw [viewRemoveNode]
  refine .ask_bind (.refl s) fun slot _ => .get_bind ?_
  refine edits_editView_ok fun order hs _ => .removeNode fun i x p hx hend => ?_
  obtain ⟨N, hN, _⟩ := Option.map_eq_some_iff.mp (hs.sound.node?_of_fixed? hx p)
  rw [hend] at hN
  rw [hN]
  exact hs.sound.mem_incident hN hx hend

theorem edits_viewRemoveEdge (view : View) (edge : Edge) (s : Session) :
    (viewRemoveEdge view edge).Leads s (Edits s) := by
  rw [viewRemoveEdge]
  exact .ask_bind (.refl s) fun slot _ => edits_editView_ok fun _ _ _ => .removeEdge

theorem edits_viewUnion (view other : View) (s : Session) :
    (viewUnion view other).Leads s (Edits s) := by
  rw [viewUnion]
  refine .ask_bind (.refl s) fun r' hother => edits_changeView fun _ hs _ => ?_
  exact .union (hs.closed _ r' (get?_of_viewRecord hother))

theorem edits_viewIntersection (view other : View) (s : Session) :
    (viewIntersection view other).Leads s (Edits s) := by
  rw [viewIntersection]
  refine .ask_bind (.refl s) fun r' hother => edits_changeView fun _ hs _ => ?_
  exact .inter (hs.closed _ r' (get?_of_viewRecord hother))

theorem edits_viewComplement (view : View) (s : Session) :
    (viewComplement view).Leads s (Edits s) := by
  rw [viewComplement]
  exact .get_bind (edits_changeView fun _ hs _ => .complement_stored hs.sound)

/-! ### Nodes one after the other -/

/-- From a session whose edges are in the given order, another with the same nodes and edges, in
which views may have got nodes. -/
structure GrowsFrom (order : List Nat) (s s' : Session) : Prop where
  node?_eq : ∀ n, s'.store.node? n = s.store.node? n
  fixed?_eq : ∀ i, s'.store.fixed? i = s.store.fixed? i
  record_of : ∀ slot r', s'.store.views.arena.get? slot = some r' →
    ∃ r, s.store.views.arena.get? slot = some r ∧ ViewRecord.Grown s.store r r'
  consistent : s'.Consistent order

namespace GrowsFrom

theorem refl (hs : s.Consistent order) : GrowsFrom order s s :=
  ⟨fun _ => rfl, fun _ => rfl, fun _ r' hr' => ⟨r', hr', .refl _ r'⟩, hs⟩

theorem trans (h : GrowsFrom order s s') (h' : GrowsFrom order s' s'') : GrowsFrom order s s'' where
  node?_eq := fun n => (h'.node?_eq n).trans (h.node?_eq n)
  fixed?_eq := fun i => (h'.fixed?_eq i).trans (h.fixed?_eq i)
  record_of := by
    intro slot r'' hr''
    obtain ⟨r', hr', hgrown'⟩ := h'.record_of slot r'' hr''
    obtain ⟨r, hr, hgrown⟩ := h.record_of slot r' hr'
    refine ⟨r, hr, hgrown.trans ⟨?_, hgrown'.nodes, hgrown'.edges, hgrown'.groups⟩⟩
    simpa only [ViewRecord.Closed.iff_of_eq h.node?_eq h.fixed?_eq] using hgrown'.closed
  consistent := h'.consistent

theorem editsFrom (h : GrowsFrom order s s') (hs : s.Consistent order) : EditsFrom order s s' where
  node?_eq := h.node?_eq
  fixed?_eq := h.fixed?_eq
  edit := by
    intro slot r r' hr hr'
    obtain ⟨x, hx, hgrown⟩ := h.record_of slot r' hr'
    rw [hr, Option.some.injEq] at hx
    subst hx
    exact hgrown.edit hs.sound.nodes_valid
  consistent := h.consistent

end GrowsFrom

theorem grows_viewAddNode (hs : s.Consistent order) (view : View) (node : Node) :
    (viewAddNode view node).Leads s (GrowsFrom order s) := by
  rw [viewAddNode]
  refine .ask_bind (.refl hs) fun slot hslot => ?_
  have hlive : (s.store.node? slot).isSome := by
    rw [node?_of_resolveNode hslot]
    rfl
  rcases editView_cases view (fun r => .ok (r.addNode slot)) s with
    ⟨fault, h⟩ | ⟨r, answer, r', hrecord, hdone, h⟩
  · rw [Leads, h]
    exact .refl hs
  · have hr := get?_of_viewRecord hrecord
    have hgrown : ViewRecord.Grown s.store r r' := by
      rw [Except.ok.injEq] at hdone
      have hadd := ViewRecord.Grown.addNode (r := r) hlive
      rwa [hdone] at hadd
    have hedits : EditsFrom order s (s.setRecord view r') := by
      have hedit : (editView view fun r => .ok (r.addNode slot)).Leads s (Edits s) :=
        edits_editView_ok fun _ hs _ => (ViewRecord.Grown.addNode hlive).edit hs.sound.nodes_valid
      rw [Leads, h] at hedit
      exact hedit order hs
    rw [Leads, h]
    refine ⟨hedits.node?_eq, hedits.fixed?_eq, fun i x hx => ?_, hedits.consistent⟩
    rw [get?_setRecord hr] at hx
    split at hx
    · next heq =>
      cases hx
      exact ⟨r, heq ▸ hr, hgrown⟩
    · exact ⟨x, hx, .refl _ x⟩

theorem grows_viewAddNodes (hs : s.Consistent order) (view : View) (nodes : List Node) :
    (viewAddNodes view nodes).Leads s (GrowsFrom order s) := by
  induction nodes generalizing s with
  | nil => exact .refl hs
  | cons node rest ih =>
    have hfirst := grows_viewAddNode hs view node
    refine bind_snd hfirst fun added s' h => ?_
    rw [Leads, h] at hfirst
    have hrest := ih hfirst.consistent
    refine bind_snd (hfirst.trans hrest) fun count s'' h' => ?_
    rw [Leads, h'] at hrest
    exact hfirst.trans hrest

theorem edits_viewAddNode (view : View) (node : Node) (s : Session) :
    (viewAddNode view node).Leads s (Edits s) :=
  fun _ hs => (grows_viewAddNode hs view node).editsFrom hs

theorem edits_viewAddNodes (view : View) (nodes : List Node) (s : Session) :
    (viewAddNodes view nodes).Leads s (Edits s) :=
  fun _ hs => (grows_viewAddNodes hs view nodes).editsFrom hs

/-! ### Groups -/

/-- Editing the groups of a view. What is in groups afterwards is stored, and they are the same if
no change is reported. -/
theorem edits_editGroups {edit : GroupForest Nat → Except Fault (α × Bool × GroupForest Nat)}
    (hedit : ∀ f answer changed f', edit f = .ok (answer, changed, f') →
      (changed = false → f' = f) ∧ (f.Valid →
        (∀ child parent, f.parent? child = some parent →
          (s.store.node? child).isSome ∧ (s.store.node? parent).isSome) →
        f'.Valid ∧ ∀ child parent, f'.parent? child = some parent →
          (s.store.node? child).isSome ∧ (s.store.node? parent).isSome)) :
    (editGroups view edit).Leads s (Edits s) := by
  refine edits_editView fun order hs r answer r' hdone => ?_
  rw [groupsOf] at hdone
  cases hf : r.groups with
  | none =>
    rw [hf] at hdone
    cases hdone
  | some f =>
    rw [hf] at hdone
    change (edit f >>= _) = _ at hdone
    cases hanswer : edit f with
    | error fault =>
      rw [hanswer] at hdone
      cases hdone
    | ok result =>
      rw [hanswer] at hdone
      cases hdone
      obtain ⟨hsame, hvalid⟩ := hedit f result.1 result.2.1 result.2.2 hanswer
      exact .setGroups hf (fun h => hvalid (h.forest_valid f hf) (h.group_live f hf)) hsame

theorem node?_of_resolveNodes {nodes : List Node} {slots : List Nat}
    (h : s.resolveNodes nodes = .ok slots) : ∀ n ∈ slots, (s.store.node? n).isSome := by
  rw [resolveNodes] at h
  induction nodes generalizing slots with
  | nil =>
    cases h
    intro n hn
    cases hn
  | cons node rest ih =>
    rw [List.mapM_cons] at h
    cases hnode : s.resolveNode node with
    | error fault =>
      rw [hnode] at h
      cases h
    | ok slot =>
      rw [hnode] at h
      cases hrest : rest.mapM s.resolveNode with
      | error fault =>
        rw [hrest] at h
        cases h
      | ok slots' =>
        rw [hrest] at h
        cases h
        intro n hn
        rcases List.mem_cons.mp hn with rfl | hn
        · rw [node?_of_resolveNode hnode]
          rfl
        · exact ih hrest n hn

theorem edits_group (view : View) (node : Node) (members : List Node) (s : Session) :
    (group view node members).Leads s (Edits s) := by
  rw [group]
  refine .ask_bind (.refl s) fun slot hslot => .ask_bind (.refl s) fun slots hslots => ?_
  refine edits_editGroups fun f answer changed f' hdone => ?_
  cases hgrouped : f.group slot slots with
  | error member =>
    rw [hgrouped] at hdone
    cases hdone
  | ok grouped =>
    rw [hgrouped] at hdone
    cases hdone
    refine ⟨(fun h => by cases h), fun hf hlive => ?_⟩
    obtain ⟨hvalid, hparent⟩ := hf.of_group hgrouped
    refine ⟨hvalid, fun child parent h => ?_⟩
    rw [hparent] at h
    split at h
    · next hmem =>
      cases h
      refine ⟨node?_of_resolveNodes hslots child hmem, ?_⟩
      rw [node?_of_resolveNode hslot]
      rfl
    · exact hlive child parent h

/-- A change of the groups that puts a node only under a parent that was one already. -/
theorem edits_editGroupAt {edit : GroupForest Nat → Nat → Bool × GroupForest Nat}
    (hsame : ∀ f n, (edit f n).1 = false → (edit f n).2 = f)
    (hvalid : ∀ f n, f.Valid → (edit f n).2.Valid)
    (hparent : ∀ f n child parent, f.Valid → (edit f n).2.parent? child = some parent →
      (∃ x, f.parent? child = some x) ∧ ∃ x, f.parent? x = some parent) :
    (editGroupAt view node edit).Leads s (Edits s) := by
  rw [editGroupAt]
  refine .ask_bind (.refl s) fun slot _ => edits_editGroups fun f answer changed f' hdone => ?_
  rw [Except.ok.injEq, Prod.mk.injEq, Prod.mk.injEq] at hdone
  obtain ⟨_, rfl, rfl⟩ := hdone
  refine ⟨hsame f slot, fun hf hlive => ⟨hvalid f slot hf, fun child parent h => ?_⟩⟩
  obtain ⟨⟨x, hx⟩, y, hy⟩ := hparent f slot child parent hf h
  exact ⟨(hlive child x hx).1, (hlive y parent hy).2⟩

theorem edits_ungroup (view : View) (node : Node) (s : Session) :
    (ungroup view node).Leads s (Edits s) := by
  refine edits_editGroupAt (fun f n hdone => ?_) (fun f n hf => hf.ungroup n)
    fun f n child parent hf hparent => ?_
  · rw [GroupForest.ungroup] at hdone ⊢
    cases hmembers : f.members[n]? with
    | none => rfl
    | some children =>
      rw [hmembers] at hdone
      cases hdone
  · rw [hf.parent?_ungroup] at hparent
    split at hparent
    · next hchild => exact ⟨⟨n, (hf.mem_children_iff n child).mp hchild⟩, n, hparent⟩
    · exact ⟨⟨parent, hparent⟩, child, hparent⟩

theorem edits_collapse (view : View) (node : Node) (s : Session) :
    (collapse view node).Leads s (Edits s) := by
  refine edits_editGroupAt (fun f n hdone => ?_) (fun f n hf => (hf.collapse n).1)
    fun f n child parent hf hparent => ?_
  · rw [GroupForest.collapse] at hdone ⊢
    split at hdone
    · cases hdone
    · next h => rw [if_neg h]
  · rw [(hf.collapse n).2] at hparent
    exact ⟨⟨parent, hparent⟩, child, hparent⟩

theorem edits_expand (view : View) (node : Node) (s : Session) :
    (expand view node).Leads s (Edits s) := by
  refine edits_editGroupAt (fun f n hdone => ?_) (fun f n hf => (hf.expand n).1)
    fun f n child parent hf hparent => ?_
  · rw [GroupForest.expand] at hdone ⊢
    split at hdone
    · cases hdone
    · next h => rw [if_neg h]
  · rw [(hf.expand n).2] at hparent
    exact ⟨⟨parent, hparent⟩, child, hparent⟩

/-! ### Views come and go -/

/-- The record of a new view, which has the members of the view that it is made from, if any. -/
def newRecord (s : Session) (hierarchical : Bool) (base : Option ViewRecord) (slot : Nat) :
    ViewRecord :=
  { view := { serial := s.catalog.fresh, store := s.store.token, slot, hierarchical }
    nodes := (base.map (·.nodes)).getD .empty
    edges := (base.map (·.edges)).getD .empty
    groups := if hierarchical then some {} else none }

theorem placeView_run (hs : s.Consistent order) (hierarchical : Bool) (base : Option ViewRecord) :
    (∃ fault, placeView hierarchical base s = (.error fault, s)) ∨
    ∃ slot arena, s.store.views.arena.get? slot = none ∧ arena.Valid ∧
      (∀ i, arena.get? i = if i = slot then some (s.newRecord hierarchical base slot)
        else s.store.views.arena.get? i) ∧
      placeView hierarchical base s = (.ok (s.newRecord hierarchical base slot).view,
        (s.withStore fun store => { store with views := { store.views with arena } }).withCatalog
          fun catalog => { catalog with fresh := catalog.fresh + 1 }) := by
  rw [placeView]
  simp only [bind_apply, get_apply, onStore_apply, change_apply, pure_apply]
  rcases hs.views_valid.allocWith_cases fun slot =>
      { view := { serial := s.catalog.fresh, store := s.store.token, slot, hierarchical }
        nodes := (base.map (·.nodes)).getD .empty
        edges := (base.map (·.edges)).getD .empty
        groups := if hierarchical then some {} else none } with
    ⟨hfull, _⟩ | ⟨slot, arena, hplaced, hfree, hvalid, _, hget⟩
  · rw [hfull]
    exact .inl ⟨_, rfl⟩
  · rw [hplaced]
    exact .inr ⟨slot, arena, hfree, hvalid, hget, rfl⟩

theorem edits_placeView {hierarchical : Bool} {base : Option ViewRecord}
    (hbase : ∀ r, base = some r → r.Closed s.store) :
    (placeView hierarchical base).Leads s (Edits s) := by
  intro order hs
  rcases placeView_run hs hierarchical base with ⟨_, h⟩ | ⟨slot, arena, hfree, hvalid, hget, h⟩
  · rw [h]
    exact Edits.refl s order hs
  · rw [h]
    have hviews : EditsFrom order s (s.withStore fun store =>
        { store with views := { store.views with arena } }) := by
      refine .setViews hs hvalid (fun i r hr => ?_) fun i r r' hr hr' => ?_
      · rw [hget] at hr
        split at hr
        · cases hr
          have hgroups : ∀ f : GroupForest Nat,
              (if hierarchical then some {} else none) = some f → f = {} := by
            intro f hf
            split at hf <;> cases hf
            rfl
          cases base with
          | none =>
            have hbare : ({ view := default } : ViewRecord).forgetAll.Closed s.store := .forgetAll
            exact hbare.regroup rfl rfl hgroups
          | some r => exact (hbase r rfl).regroup rfl rfl hgroups
        · exact hs.closed i r hr
      · rw [hget] at hr'
        split at hr'
        · next heq =>
          rw [heq, hfree] at hr
          cases hr
        · exact edit_of_eq rfl hr hr'
    exact hviews.trans_quiet ⟨rfl, rfl, rfl, rfl, rfl, fun _ _ h => h, fun _ _ h => h⟩

theorem edits_createView (hierarchical : Bool) (s : Session) :
    (createView hierarchical).Leads s (Edits s) :=
  edits_placeView fun r hr => by cases hr

theorem edits_createViewFrom (base : View) (s : Session) :
    (createViewFrom base).Leads s (Edits s) := by
  intro order hs
  rw [createViewFrom]
  refine Leads.ask_bind (P := EditsFrom order s) (Edits.refl s order hs) fun r hr => ?_
  refine edits_placeView (fun r' hr' => ?_) order hs
  cases hr'
  exact hs.closed _ r (get?_of_viewRecord hr)

theorem edits_destroyView (view : View) (s : Session) : (destroyView view).Leads s (Edits s) := by
  rw [destroyView]
  refine .ask_bind (.refl s) fun r hr => ?_
  intro order hs
  simp only [bind_apply, change_apply]
  have hget : ∀ i, (s.store.views.arena.free view.slot).2.get? i =
      if i = view.slot then none else s.store.views.arena.get? i := fun i => hs.views_valid.get?_free
  have hviews : EditsFrom order s (s.withStore fun store =>
      { store with
        views :=
          { arena := (store.views.arena.free view.slot).2
            visible := if store.views.visible = some view then none else store.views.visible } }) := by
    refine .setViews hs (hs.views_valid.free view.slot) (fun i r hr => ?_) fun i r r' hr hr' => ?_
    · change (s.store.views.arena.free view.slot).2.get? i = some r at hr
      rw [hget] at hr
      split at hr
      · cases hr
      · exact hs.closed i r hr
    · change (s.store.views.arena.free view.slot).2.get? i = some r' at hr'
      rw [hget] at hr'
      split at hr'
      · cases hr'
      · exact edit_of_eq rfl hr hr'
  refine (hviews.trans_quiet ?_).trans_quiet (quiet_tell _ _)
  obtain ⟨hnodes, hedges⟩ := homes_foldl_destroyObserver r.observers
    { s.catalog with destroyedViews := s.catalog.destroyedViews.insert view }
  refine ⟨rfl, rfl, rfl, rfl, rfl, fun node n hn => ?_, fun edge i hi => ?_⟩
  · exact (congrArg (·[node]?) hnodes).trans hn
  · exact (congrArg (·[edge]?) hedges).trans hi

theorem setVisibleView_cases (view : Option View) (s : Session) :
    (∃ own fault, view = some own ∧ s.viewSlot own = .error fault ∧
      setVisibleView view s = (.error fault, s)) ∨
    (∀ own, view = some own → ∃ slot, s.viewSlot own = .ok slot) ∧
      setVisibleView view s = (.ok (), s.withStore fun store =>
        { store with views := { store.views with visible := view } }) := by
  cases view with
  | none => exact .inr ⟨nofun, rfl⟩
  | some view =>
    rw [setVisibleView, discard_eq]
    simp only [bind_apply, ask_apply]
    cases hslot : s.viewSlot view with
    | error fault => exact .inl ⟨view, fault, rfl, hslot, rfl⟩
    | ok slot =>
      refine .inr ⟨fun own hown => ?_, rfl⟩
      cases hown
      exact ⟨slot, hslot⟩

theorem edits_setVisibleView (view : Option View) (s : Session) :
    (setVisibleView view).Leads s (Edits s) := by
  rw [Leads]
  rcases setVisibleView_cases view s with ⟨_, _, _, _, h⟩ | ⟨_, h⟩
  · rw [h]
    exact .refl s
  · rw [h]
    exact Edits.of_quiet ⟨rfl, rfl, rfl, rfl, rfl, fun _ _ h => h, fun _ _ h => h⟩

theorem edits_setViewInterval (view : View) (interval : Option Interval) (s : Session) :
    (setViewInterval view interval).Leads s (Edits s) :=
  edits_changeView fun _ _ _ => .of_eq rfl rfl rfl

theorem edits_setViewAttribute (view : View) (name : String) (value : Value) (s : Session) :
    (setViewAttribute view name value).Leads s (Edits s) :=
  edits_editView fun _ _ _ _ _ hdone => by
    cases hdone
    exact .of_eq rfl rfl rfl

theorem edits_removeViewAttribute (view : View) (name : String) (s : Session) :
    (removeViewAttribute view name).Leads s (Edits s) :=
  edits_editView fun _ _ _ _ _ hdone => by
    cases hdone
    exact .of_eq rfl rfl rfl

/-! ### Who watches -/

theorem edits_attachObserver (observer : Observer) (s : Session) :
    (attachObserver observer).Leads s (Edits s) := by
  rw [attachObserver]
  cases observer.view with
  | none => exact Edits.of_quiet ⟨rfl, rfl, rfl, rfl, rfl, fun _ _ h => h, fun _ _ h => h⟩
  | some view => exact edits_changeView fun _ _ _ => .of_eq rfl rfl rfl

theorem edits_detachObserver (observer : Observer) (s : Session) :
    Edits s (s.detachObserver observer) := by
  intro order hs
  rw [detachObserver]
  cases observer.view with
  | none =>
    refine Edits.of_quiet ?_ order hs
    exact ⟨rfl, rfl, rfl, rfl, rfl, fun _ _ h => h, fun _ _ h => h⟩
  | some view =>
    simp only
    cases hrecord : s.viewRecord view with
    | error fault => exact Edits.refl s order hs
    | ok r =>
      have hget : ∀ i, (s.store.views.modify view.slot fun record =>
          { record with observers := record.observers.filter (· ≠ observer) }).arena.get? i =
          if i = view.slot then (s.store.views.arena.get? i).map fun record =>
            { record with observers := record.observers.filter (· ≠ observer) }
          else s.store.views.arena.get? i := fun i => Arena.get?_modify
      refine .setViews hs hs.views_valid.modify (fun i r' hr' => ?_) fun i r r' hr hr' => ?_
      · rw [hget] at hr'
        split at hr'
        · obtain ⟨r, hr, rfl⟩ := Option.map_eq_some_iff.mp hr'
          exact (hs.closed i r hr).of_eq rfl rfl rfl
        · exact hs.closed i r' hr'
      · rw [hget] at hr'
        split at hr'
        · rw [hr] at hr'
          cases hr'
          exact .of_eq rfl rfl rfl
        · exact edit_of_eq rfl hr hr'

theorem edits_registerListener (listener : Listener) (s : Session) :
    (registerListener listener).Leads s (Edits s) :=
  Edits.of_quiet ⟨rfl, rfl, rfl, rfl, rfl, fun _ _ h => h, fun _ _ h => h⟩

theorem edits_unregisterListener (listener : Listener) (s : Session) :
    (unregisterListener listener).Leads s (Edits s) := by
  rw [unregisterListener]
  exact .get_bind (Edits.of_quiet ⟨rfl, rfl, rfl, rfl, rfl, fun _ _ h => h, fun _ _ h => h⟩)

theorem edits_setDefaults (provider : Option (String → Option Value)) (s : Session) :
    (setDefaults provider).Leads s (Edits s) :=
  Edits.of_quiet ⟨rfl, rfl, rfl, rfl, rfl, fun _ _ h => h, fun _ _ h => h⟩

end Session

end PropertyGraph
