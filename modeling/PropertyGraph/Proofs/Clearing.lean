import PropertyGraph.Proofs.Removals
import PropertyGraph.Proofs.Session.Framed
import PropertyGraph.Proofs.Session.Ids

/-!
# Clearing at once and one by one

To clear a store takes another way than to remove its elements one after the other: tables, chains,
counters, homes and views are emptied as a whole, and not in step with each other. Both ways lead to
the same outline, whatever the order in which the elements are removed. The outline of a session has all
that there is of it but how the arenas are laid out, what the versions stand at and what was heard.
-/

namespace PropertyGraph

/-! ### Outlines -/

/-- A stored node with the edges at which its chains begin, and its counters. -/
@[ext]
structure NodeOutline where
  node : Node
  head? : Phase → Nat → Option Nat
  degree : Phase → Nat
  mutualDegree : Nat

def NodeSlot.outline (N : NodeSlot) : NodeOutline where
  node := N.node
  head? := N.head?
  degree := N.degrees.get
  mutualDegree := N.mutualDegree

@[ext]
structure GroupOutline where
  parent? : Nat → Option Nat
  children : Nat → List Nat
  isGroup : Nat → Bool
  isCollapsed : Nat → Bool

def GroupForest.outline (f : GroupForest Nat) : GroupOutline where
  parent? := f.parent?
  children := f.children
  isGroup := f.isGroup
  isCollapsed := f.isCollapsed

@[ext]
structure ViewOutline where
  setting : ViewRecord
  nodes : IdSet
  edges : IdSet
  groups : Option GroupOutline

def ViewRecord.outline (r : ViewRecord) : ViewOutline where
  setting := r.setting
  nodes := r.nodes
  edges := r.edges
  groups := r.groups.map (·.outline)

/-- What a session answers. The setting is what there is besides elements and views. -/
@[ext]
structure Outline where
  setting : Session
  node : Nat → Option NodeOutline
  nodeId : ElementId → Option Nat
  nodeCount : Nat
  edge : Nat → Option EdgeSlot
  edgeId : ElementId → Option Nat
  pair : Nat → Nat → Nat → Option Nat
  edgeCount : Nat
  labelCount : Nat → Nat
  mutualCount : Nat
  loopCount : Nat
  view : Nat → Option ViewOutline
  nodeHome : Node → Option Home
  edgeHome : Edge → Option Home

def Session.outline (s : Session) : Outline where
  setting := s.setting
  node := fun n => (s.store.nodes.get? n).map (·.outline)
  nodeId := fun id => s.store.nodes.ids[id]?
  nodeCount := s.store.nodes.arena.size
  edge := s.store.edges.get?
  edgeId := fun id => s.store.edges.ids[id]?
  pair := s.store.edges.find?
  edgeCount := s.store.edges.arena.size
  labelCount := s.store.edges.labelCount
  mutualCount := s.store.edges.mutualCount
  loopCount := s.store.edges.loopCount
  view := fun v => (s.store.views.arena.get? v).map (·.outline)
  nodeHome := fun node => s.catalog.nodeHomes[node]?
  edgeHome := fun edge => s.catalog.edgeHomes[edge]?

/-! ### What is left -/

def NodeOutline.bare (o : NodeOutline) : NodeOutline where
  node := o.node
  head? := fun _ _ => none
  degree := fun _ => 0
  mutualDegree := 0

def GroupOutline.empty : GroupOutline where
  parent? := fun _ => none
  children := fun _ => []
  isGroup := fun _ => false
  isCollapsed := fun _ => false

def ViewOutline.withoutEdges (o : ViewOutline) : ViewOutline := { o with edges := .empty }

def ViewOutline.emptied (o : ViewOutline) : ViewOutline where
  setting := o.setting
  nodes := .empty
  edges := .empty
  groups := o.groups.map fun _ => .empty

theorem GroupForest.Valid.outline_eq_empty {f : GroupForest Nat} (h : f.Valid)
    (hnone : ∀ child, f.parent? child = none) : f.outline = .empty := by
  have hchildren : ∀ x, f.children x = [] := by
    intro x
    rw [List.eq_nil_iff_forall_not_mem]
    intro y hy
    cases (hnone y).symm.trans ((h.mem_children_iff x y).mp hy)
  have hgroup : ∀ x, f.isGroup x = false := by
    intro x
    rw [Bool.eq_false_iff]
    exact fun hx => (h.isGroup_iff x).mp hx (hchildren x)
  apply GroupOutline.ext
  · exact funext hnone
  · exact funext hchildren
  · exact funext hgroup
  · funext x
    refine Bool.eq_false_iff.mpr fun hx => ?_
    cases (hgroup x).symm.trans (h.isGroup_of_collapsed x hx)

namespace Outline

def nodeIsAtHome (o : Outline) (node : Node) (home : Home) : Bool :=
  home.store = o.setting.store.token ∧ (o.node home.slot).map (·.node) = some node

def edgeIsAtHome (o : Outline) (edge : Edge) (home : Home) : Bool :=
  home.store = o.setting.store.token ∧ (o.edge home.slot).map (·.edge) = some edge

def withoutEdges (o : Outline) : Outline :=
  { o with
    node := fun n => (o.node n).map (·.bare)
    edge := fun _ => none
    edgeId := fun _ => none
    pair := fun _ _ _ => none
    edgeCount := 0
    labelCount := fun _ => 0
    mutualCount := 0
    loopCount := 0
    view := fun v => (o.view v).map (·.withoutEdges)
    edgeHome := fun edge => (o.edgeHome edge).filter (!o.edgeIsAtHome edge ·) }

def emptied (o : Outline) : Outline :=
  { o.withoutEdges with
    node := fun _ => none
    nodeId := fun _ => none
    nodeCount := 0
    view := fun v => (o.view v).map (·.emptied)
    nodeHome := fun node => (o.nodeHome node).filter (!o.nodeIsAtHome node ·) }

/-- Nothing is told of edges, except of those that are stored elsewhere. -/
structure Edgeless (o : Outline) : Prop where
  node_bare : ∀ n, o.node n = (o.node n).map (·.bare)
  edge_none : o.edge = fun _ => none
  edgeId_none : o.edgeId = fun _ => none
  pair_none : o.pair = fun _ _ _ => none
  edgeCount_zero : o.edgeCount = 0
  labelCount_zero : o.labelCount = fun _ => 0
  mutualCount_zero : o.mutualCount = 0
  loopCount_zero : o.loopCount = 0
  view_edges : ∀ v, o.view v = (o.view v).map (·.withoutEdges)

end Outline

theorem ViewRecord.emptied_congr {r r' : ViewRecord} (hsetting : r'.setting = r.setting) :
    r'.outline.emptied = r.outline.emptied := by
  have hgroups : ∀ r : ViewRecord, r.outline.emptied.groups =
      r.setting.groups.map fun _ => GroupOutline.empty := by
    intro r
    change (r.groups.map _).map _ = (r.groups.map _).map _
    rw [Option.map_map, Option.map_map]
    rfl
  apply ViewOutline.ext
  · exact hsetting
  · rfl
  · rfl
  · rw [hgroups, hgroups, hsetting]

theorem ViewRecord.Closed.outline_eq_emptied {s : Store} {r : ViewRecord} (h : r.Closed s)
    (hnone : ∀ n, s.node? n = none) (hedges : r.edges = .empty) : r.outline = r.outline.emptied := by
  apply ViewOutline.ext
  · rfl
  · apply IdSet.ext
    intro n
    refine Eq.trans (Bool.eq_false_iff.mpr fun hn => ?_) IdSet.contains_empty.symm
    have hlive := h.node_live n hn
    rw [hnone] at hlive
    cases hlive
  · exact hedges
  · change r.groups.map _ = (r.groups.map _).map _
    rw [Option.map_map]
    refine Option.map_congr fun f hf => (h.forest_valid f hf).outline_eq_empty fun child => ?_
    refine Option.eq_none_iff_forall_ne_some.mpr fun parent hparent => ?_
    have hlive := (h.group_live f hf child parent hparent).1
    rw [hnone] at hlive
    cases hlive

namespace Session

open PropertyGraph.Action

variable {s t : Session} {order : List Nat} {edges edges' gone : List Edge}

/-! ### Who is unbound -/

theorem node?_of_outline (s : Session) (n : Nat) :
    (s.outline.node n).map (·.node) = s.store.node? n := by
  change ((s.store.nodes.get? n).map _).map _ = _
  rw [Option.map_map]
  rfl

theorem containsNode_eq_any (s : Session) (node : Node) :
    s.containsNode node = (s.outline.nodeHome node).any (s.outline.nodeIsAtHome node) := by
  rw [Bool.eq_iff_iff, containsNode_iff_nodeSlot?, Option.any_eq_true]
  simp only [nodeSlot?_iff]
  constructor
  · rintro ⟨slot, hhome, hnode⟩
    exact ⟨_, hhome, decide_eq_true ⟨rfl, (s.node?_of_outline slot).trans hnode⟩⟩
  · rintro ⟨home, hhome, hathome⟩
    obtain ⟨hstore, hnode⟩ := of_decide_eq_true hathome
    refine ⟨home.slot, ?_, (s.node?_of_outline home.slot).symm.trans hnode⟩
    rw [← show home.store = s.store.token from hstore]
    exact hhome

theorem containsEdge_eq_any (s : Session) (edge : Edge) :
    s.containsEdge edge = (s.outline.edgeHome edge).any (s.outline.edgeIsAtHome edge) := by
  rw [Bool.eq_iff_iff, containsEdge_iff_edgeSlot?, Option.any_eq_true]
  simp only [edgeSlot?_iff]
  constructor
  · rintro ⟨slot, hhome, hedge⟩
    exact ⟨_, hhome, decide_eq_true ⟨rfl, hedge⟩⟩
  · rintro ⟨home, hhome, hathome⟩
    obtain ⟨hstore, hedge⟩ := of_decide_eq_true hathome
    refine ⟨home.slot, ?_, hedge⟩
    rw [← show home.store = s.store.token from hstore]
    exact hhome

theorem filter_not_eq_if_any {α : Type} (x : Option α) (P : α → Bool) :
    x.filter (!P ·) = if x.any P = true then none else x := by
  cases x with
  | none => rfl
  | some a => cases hP : P a <;> simp [hP]

section Unbinds

variable (h : Unbinds s t)

include h

theorem Unbinds.nodeHome_eq (hgone : ∀ node, t.containsNode node = false) (node : Node) :
    t.outline.nodeHome node = (s.outline.nodeHome node).filter (!s.outline.nodeIsAtHome node ·) := by
  rw [filter_not_eq_if_any, ← containsNode_eq_any]
  exact (h.node_home node).trans (if_congr (and_iff_left (hgone node)) rfl rfl)

theorem Unbinds.edgeHome_eq (hgone : ∀ edge, t.containsEdge edge = false) (edge : Edge) :
    t.outline.edgeHome edge = (s.outline.edgeHome edge).filter (!s.outline.edgeIsAtHome edge ·) := by
  rw [filter_not_eq_if_any, ← containsEdge_eq_any]
  exact (h.edge_home edge).trans (if_congr (and_iff_left (hgone edge)) rfl rfl)

end Unbinds

namespace Consistent

theorem containsNode_eq_false (ht : t.Consistent order) (hnone : ∀ n, t.store.node? n = none)
    (node : Node) : t.containsNode node = false := by
  rw [← Bool.not_eq_true, ht.containsNode_iff]
  rintro ⟨n, hn⟩
  cases (hnone n).symm.trans hn

theorem containsEdge_eq_false (ht : t.Consistent order) (hnone : ∀ i, t.store.edge? i = none)
    (edge : Edge) : t.containsEdge edge = false := by
  rw [← Bool.not_eq_true, ht.containsEdge_iff]
  rintro ⟨i, hi⟩
  cases (hnone i).symm.trans hi

theorem edge?_eq_none (ht : t.Consistent order) (hnone : ∀ n, t.store.node? n = none) (i : Nat) :
    t.store.edge? i = none := by
  refine Option.eq_none_iff_forall_ne_some.mpr fun edge hedge => ?_
  have hend := ht.containsNode_end (ht.containsEdge_iff.mpr ⟨i, hedge⟩) .source
  cases (ht.containsNode_eq_false hnone edge.source).symm.trans hend

end Consistent

/-! ### Without edges -/

theorem eq_map_of_forall {α : Type} {x : Option α} {f : α → α} (h : ∀ a, x = some a → a = f a) :
    x = x.map f := by
  cases x with
  | none => rfl
  | some a => exact congrArg some (h a rfl)

/-- Without edges nothing is told of edges: the rest of the store follows from them. -/
theorem History.edgeless (h : History t edges) (hnone : ∀ i, t.store.edge? i = none) :
    t.outline.Edgeless := by
  obtain ⟨order, ht, _⟩ := h.recorded
  have hget : ∀ i, t.store.edges.get? i = none := fun i => Option.map_eq_none_iff.mp (hnone i)
  have horder : order = [] := by
    rw [List.eq_nil_iff_forall_not_mem]
    intro i hi
    rw [ht.sound.mem_iff_get?, hget] at hi
    cases hi
  subst horder
  constructor
  case node_bare =>
    refine fun n => eq_map_of_forall fun o ho => ?_
    obtain ⟨N, hN, rfl⟩ := Option.map_eq_some_iff.mp ho
    apply NodeOutline.ext
    · rfl
    · funext p label
      exact ht.sound.chained p n N label hN
    · funext p
      exact ht.sound.degreed p n N hN
    · exact ht.sound.paired.mutualDegree n N hN
  case edge_none => exact funext hget
  case edgeId_none =>
    funext id
    refine Option.eq_none_iff_forall_ne_some.mpr fun slot hslot => ?_
    obtain ⟨edge, hedge, _⟩ := (h.listed.slotOf_iff id slot).mp hslot
    cases (hnone slot).symm.trans hedge
  case pair_none =>
    funext source target label
    refine Option.eq_none_iff_forall_ne_some.mpr fun slot hslot => ?_
    cases ((ht.sound.indexed.find?_iff source target label slot).mp hslot).1
  case edgeCount_zero => exact ht.sound.edges_valid.size_eq_zero hget
  case labelCount_zero => exact funext ht.sound.indexed.labelCount
  case mutualCount_zero => exact ht.sound.paired.mutualCount
  case loopCount_zero => exact ht.sound.indexed.loopCount
  case view_edges =>
    refine fun v => eq_map_of_forall fun o ho => ?_
    obtain ⟨r, hr, rfl⟩ := Option.map_eq_some_iff.mp ho
    refine ViewOutline.ext rfl rfl (IdSet.ext fun i => ?_) rfl
    refine Eq.trans (Bool.eq_false_iff.mpr fun hi => ?_) IdSet.contains_empty.symm
    obtain ⟨x, hx, _⟩ := (ht.closed v r hr).edge_live i hi
    cases (hnone i).symm.trans (Store.edge?_of_fixed? hx)

/-- From a session to one without its edges, and without anything else having left. -/
structure RemovesAllEdges (s t : Session) : Prop extends Unbinds s t, Framed s t where
  node?_eq : ∀ n, t.store.node? n = s.store.node? n
  edge?_eq : ∀ i, t.store.edge? i = none
  record_rel : ∀ v, Option.Rel (fun r r' => r'.nodes = r.nodes ∧ r'.groups = r.groups)
    (s.store.views.arena.get? v) (t.store.views.arena.get? v)

theorem History.nodeIds_eq (h : History s edges) (h' : History t edges')
    (hnode? : ∀ n, t.store.node? n = s.store.node? n) (id : ElementId) :
    t.store.nodes.ids[id]? = s.store.nodes.ids[id]? := by
  apply Option.ext
  intro slot
  refine (h'.nodes_listed.slotOf_iff id slot).trans
    (Iff.trans ?_ (h.nodes_listed.slotOf_iff id slot).symm)
  exact exists_congr fun node => and_congr_left fun _ => Eq.congr_left (hnode? slot)

theorem map_bare_eq (hnode? : ∀ n, t.store.node? n = s.store.node? n) (n : Nat) :
    (t.outline.node n).map (·.bare) = (s.outline.node n).map (·.bare) := by
  have hbare : ∀ s : Session, (s.outline.node n).map (·.bare) = (s.store.node? n).map fun node =>
      { node, head? := fun _ _ => none, degree := fun _ => 0, mutualDegree := 0 } := by
    intro s
    rw [← node?_of_outline, Option.map_map]
    rfl
  rw [hbare, hbare, hnode?]

theorem RemovesAllEdges.map_withoutEdges_eq (h : RemovesAllEdges s t) (v : Nat) :
    (t.outline.view v).map (·.withoutEdges) = (s.outline.view v).map (·.withoutEdges) := by
  have hrel := h.record_rel v
  have hframe := h.record_eq v
  change ((t.store.views.arena.get? v).map _).map _ = ((s.store.views.arena.get? v).map _).map _
  generalize s.store.views.arena.get? v = record at hrel hframe ⊢
  generalize t.store.views.arena.get? v = record' at hrel hframe ⊢
  cases hrel with
  | none => rfl
  | some hr =>
    refine congrArg some ?_
    apply ViewOutline.ext
    · exact Option.some.inj hframe
    · exact hr.1
    · rfl
    · exact congrArg (Option.map _) hr.2

theorem History.outline_of_removesAllEdges (h : History s edges) (h' : History t edges')
    (hedgesGone : RemovesAllEdges s t) : t.outline = s.outline.withoutEdges := by
  obtain ⟨order, hs, _⟩ := h.recorded
  obtain ⟨order', ht, _⟩ := h'.recorded
  have hedgeless := h'.edgeless hedgesGone.edge?_eq
  apply Outline.ext
  case setting => exact hedgesGone.setting_eq
  case node => exact funext fun n => (hedgeless.node_bare n).trans (map_bare_eq hedgesGone.node?_eq n)
  case nodeId => exact funext (h.nodeIds_eq h' hedgesGone.node?_eq)
  case nodeCount =>
    refine ht.sound.nodes_valid.size_eq_of_live hs.sound.nodes_valid fun n => ?_
    have hnode := congrArg Option.isSome (hedgesGone.node?_eq n)
    rwa [Store.node?, Store.node?, Option.isSome_map, Option.isSome_map] at hnode
  case edge => exact hedgeless.edge_none
  case edgeId => exact hedgeless.edgeId_none
  case pair => exact hedgeless.pair_none
  case edgeCount => exact hedgeless.edgeCount_zero
  case labelCount => exact hedgeless.labelCount_zero
  case mutualCount => exact hedgeless.mutualCount_zero
  case loopCount => exact hedgeless.loopCount_zero
  case view => exact funext fun v => (hedgeless.view_edges v).trans (hedgesGone.map_withoutEdges_eq v)
  case nodeHome =>
    funext node
    refine (hedgesGone.node_home node).trans (if_neg ?_)
    rintro ⟨hthere, hgone⟩
    rw [hs.containsNode_iff] at hthere
    simp only [← hedgesGone.node?_eq] at hthere
    cases hgone.symm.trans (ht.containsNode_iff.mpr hthere)
  case edgeHome =>
    exact funext (hedgesGone.toUnbinds.edgeHome_eq (ht.containsEdge_eq_false hedgesGone.edge?_eq))

/-! ### Without nodes -/

/-- From a session to one without its nodes, and so without its edges. -/
structure RemovesAllNodes (s t : Session) : Prop extends Unbinds s t, Framed s t where
  node?_eq : ∀ n, t.store.node? n = none

theorem RemovesAllNodes.view_eq (h : RemovesAllNodes s t) (ht : t.Consistent order)
    (hedgeless : t.outline.Edgeless)
    (v : Nat) : t.outline.view v = (s.outline.view v).map (·.emptied) := by
  have hframe := h.record_eq v
  have hedges := hedgeless.view_edges v
  have hclosed := ht.closed v
  change (t.store.views.arena.get? v).map _ = ((s.store.views.arena.get? v).map _).map _
  change (t.store.views.arena.get? v).map _ = ((t.store.views.arena.get? v).map _).map _ at hedges
  generalize s.store.views.arena.get? v = record at hframe ⊢
  generalize t.store.views.arena.get? v = record' at hframe hedges hclosed ⊢
  cases record' with
  | none =>
    rw [Option.map_none, eq_comm, Option.map_eq_none_iff] at hframe
    rw [hframe]
    rfl
  | some r' =>
    rw [Option.map_some, eq_comm, Option.map_eq_some_iff] at hframe
    obtain ⟨r, rfl, hsetting⟩ := hframe
    have hnone : r'.edges = .empty := congrArg ViewOutline.edges (Option.some.inj hedges)
    rw [Option.map_some, (hclosed r' rfl).outline_eq_emptied h.node?_eq hnone,
      ViewRecord.emptied_congr hsetting.symm]
    rfl

theorem History.outline_of_removesAllNodes (h' : History t edges) (hnodesGone : RemovesAllNodes s t) :
    t.outline = s.outline.emptied := by
  obtain ⟨order, ht, _⟩ := h'.recorded
  have hedge? := ht.edge?_eq_none hnodesGone.node?_eq
  have hget : ∀ n, t.store.nodes.get? n = none :=
    fun n => Option.map_eq_none_iff.mp (hnodesGone.node?_eq n)
  have hedgeless := h'.edgeless hedge?
  apply Outline.ext
  case setting => exact hnodesGone.setting_eq
  case node => exact funext fun n => Option.map_eq_none_iff.mpr (hget n)
  case nodeId =>
    funext id
    refine Option.eq_none_iff_forall_ne_some.mpr fun slot hslot => ?_
    obtain ⟨node, hnode, _⟩ := (h'.nodes_listed.slotOf_iff id slot).mp hslot
    cases (hnodesGone.node?_eq slot).symm.trans hnode
  case nodeCount => exact ht.sound.nodes_valid.size_eq_zero hget
  case edge => exact hedgeless.edge_none
  case edgeId => exact hedgeless.edgeId_none
  case pair => exact hedgeless.pair_none
  case edgeCount => exact hedgeless.edgeCount_zero
  case labelCount => exact hedgeless.labelCount_zero
  case mutualCount => exact hedgeless.mutualCount_zero
  case loopCount => exact hedgeless.loopCount_zero
  case view => exact funext (hnodesGone.view_eq ht hedgeless)
  case nodeHome =>
    exact funext (hnodesGone.toUnbinds.nodeHome_eq (ht.containsNode_eq_false hnodesGone.node?_eq))
  case edgeHome => exact funext (hnodesGone.toUnbinds.edgeHome_eq (ht.containsEdge_eq_false hedge?))

/-! ### Both ways -/

theorem homes_clearEdges (s : Session) :
    (∀ node : Node, (clearEdges s).2.catalog.nodeHomes[node]? = s.catalog.nodeHomes[node]?) ∧
    ∀ edge : Edge, (clearEdges s).2.catalog.edgeHomes[edge]? =
      if edge ∈ s.store.edges.edges then none else s.catalog.edgeHomes[edge]? := by
  obtain ⟨hnodes, hedges⟩ :=
    homes_foldl_tell .edgesCleared s.store.listeners s.dropAllEdges.catalog
  refine ⟨fun node => (congrArg (·[node]?) hnodes).trans ?_,
    fun edge => (congrArg (·[edge]?) hedges).trans ?_⟩
  · exact congrArg (·[node]?) (nodeHomes_foldl_unbindEdge _ s.catalog)
  · change (s.store.edges.edges.foldl Catalog.unbindEdge s.catalog).edgeHomes[edge]? = _
    rw [edgeHomes_foldl_unbindEdge, getElem?_foldl_erase]

theorem homes_clear (s : Session) :
    (∀ node : Node, (clear s).2.catalog.nodeHomes[node]? =
      if node ∈ s.store.nodes.nodes then none else s.catalog.nodeHomes[node]?) ∧
    ∀ edge : Edge, (clear s).2.catalog.edgeHomes[edge]? =
      if edge ∈ s.store.edges.edges then none else s.catalog.edgeHomes[edge]? := by
  obtain ⟨hnodes, hedges⟩ :=
    homes_foldl_tell .cleared s.store.listeners s.dropAllEdges.dropAllNodes.catalog
  obtain ⟨hnodes', hedges'⟩ := homes_foldl_unbindNode s.store.nodes.nodes s.dropAllEdges.catalog
  refine ⟨fun node => (congrArg (·[node]?) (hnodes.trans hnodes')).trans ?_,
    fun edge => (congrArg (·[edge]?) (hedges.trans hedges')).trans ?_⟩
  · rw [getElem?_foldl_erase]
    exact if_congr Iff.rfl rfl (congrArg (·[node]?) (nodeHomes_foldl_unbindEdge _ s.catalog))
  · change (s.store.edges.edges.foldl Catalog.unbindEdge s.catalog).edgeHomes[edge]? = _
    rw [edgeHomes_foldl_unbindEdge, getElem?_foldl_erase]

theorem Consistent.removesAllEdges_clearEdges (hs : s.Consistent order) :
    RemovesAllEdges s (clearEdges s).2 := by
  obtain ⟨order', _, hs'⟩ := (loses_clearEdges s order hs).exists_sublist
  obtain ⟨hnodeHome, hedgeHome⟩ := homes_clearEdges s
  have hnode? : ∀ n, (clearEdges s).2.store.node? n = s.store.node? n :=
    fun n => Store.node?_of_dropEdges (t := s.store) rfl
  have hedge? : ∀ i, (clearEdges s).2.store.edge? i = none := by
    intro i
    rw [Store.edge?_eq, Store.fixed?_of_clear (t := s.store.edges) rfl, Option.map_none]
  refine ⟨?_, framed_clearEdges s, hnode?, hedge?, fun v => ?_⟩
  · refine unbinds_of_kept (P := fun _ => true) (Q := fun _ => false) hs hs' (fun n => ?_)
      (fun i => ?_) (fun node => ?_) fun edge => ?_
    · rw [hnode?]
      cases s.store.node? n <;> rfl
    · rw [hedge?]
      cases s.store.edge? i <;> rfl
    · simp [hnodeHome]
    · rw [hedgeHome]
      refine if_congr ?_ rfl rfl
      rw [hs.mem_edges, ← hs.containsEdge_iff, and_iff_left rfl]
  · change Option.Rel _ _ ((s.store.views.arena.map (·.clearEdges)).get? v)
    rw [Arena.get?_map]
    cases s.store.views.arena.get? v with
    | none => exact .none
    | some r => exact .some ⟨rfl, rfl⟩

theorem Consistent.removesAllEdges_callEach (hs : s.Consistent order) (hnodup : gone.Nodup)
    (hall : ∀ edge, edge ∈ gone ↔ s.containsEdge edge = true) :
    (callEach removeEdge gone s).1 = List.replicate gone.length (.ok true) ∧
      RemovesAllEdges s (callEach removeEdge gone s).2 := by
  have hthere : ∀ edge ∈ gone, s.containsEdge edge = true := fun edge => (hall edge).mp
  obtain ⟨hanswers, hedgesLost⟩ := hs.losesEdges_callEach hnodup fun edge hedge =>
    hs.containsEdge_iff.mp (hthere edge hedge)
  obtain ⟨_, order', hs'⟩ := keeps_countEach keeps_removeEdge gone s order hs
  have hframed := countEach_relates Framed .refl .trans (fun t _ ht edge =>
    ⟨framed_removeEdge edge t, exists_consistent_perform ht (.removeEdge edge)⟩) hs gone
  rw [countEach_of_callEach hanswers] at hs' hframed
  refine ⟨hanswers, hedgesLost.unbinds hs hs' hthere, hframed, hedgesLost.node?_eq, fun i => ?_,
    fun v => ?_⟩
  · rw [hedgesLost.edge?_eq]
    cases hi : s.store.edge? i with
    | none => rfl
    | some edge =>
      have hmem := (hall edge).mpr (hs.containsEdge_iff.mpr ⟨i, hi⟩)
      simp [Option.filter_some, hmem]
  · have hrecord := hedgesLost.records v
    generalize s.store.views.arena.get? v = record at hrecord ⊢
    generalize (callEach removeEdge gone s).2.store.views.arena.get? v = record' at hrecord ⊢
    cases hrecord with
    | none => exact .none
    | some hr => exact .some ⟨hr.1, hr.2.1⟩

theorem Consistent.removesAllNodes_clear (hs : s.Consistent order) : RemovesAllNodes s (clear s).2 := by
  obtain ⟨order', _, hs'⟩ := (loses_clear s order hs).exists_sublist
  obtain ⟨hnodeHome, hedgeHome⟩ := homes_clear s
  have hnode? : ∀ n, (clear s).2.store.node? n = none :=
    fun n => Store.node?_of_clear (t := s.store.nodes) rfl
  have hedge? : ∀ i, (clear s).2.store.edge? i = none := hs'.edge?_eq_none hnode?
  refine ⟨?_, framed_clear s, hnode?⟩
  refine unbinds_of_kept (P := fun _ => false) (Q := fun _ => false) hs hs' (fun n => ?_)
    (fun i => ?_) (fun node => ?_) fun edge => ?_
  · rw [hnode?]
    cases s.store.node? n <;> rfl
  · rw [hedge?]
    cases s.store.edge? i <;> rfl
  · rw [hnodeHome]
    refine if_congr ?_ rfl rfl
    rw [hs.mem_nodes, ← hs.containsNode_iff, and_iff_left rfl]
  · rw [hedgeHome]
    refine if_congr ?_ rfl rfl
    rw [hs.mem_edges, ← hs.containsEdge_iff, and_iff_left rfl]

theorem Consistent.removesAllNodes_callEach {evicted : List Node} (hs : s.Consistent order)
    (hnodup : evicted.Nodup) (hall : ∀ node, node ∈ evicted ↔ s.containsNode node = true) :
    (callEach removeNode evicted s).1 = List.replicate evicted.length (.ok true) ∧
      RemovesAllNodes s (callEach removeNode evicted s).2 := by
  obtain ⟨hanswers, hevicts⟩ := hs.evicts_callEach hnodup fun node hnode =>
    hs.containsNode_iff.mp ((hall node).mp hnode)
  have hframed := countEach_relates Framed .refl .trans (fun t _ ht node =>
    ⟨framed_removeNode ht node, exists_consistent_perform ht (.removeNode node)⟩) hs evicted
  rw [countEach_of_callEach hanswers] at hframed
  refine ⟨hanswers, hevicts.toUnbinds, hframed, fun n => ?_⟩
  rw [hevicts.node?_eq]
  cases hn : s.store.node? n with
  | none => rfl
  | some node =>
    have hmem := (hall node).mpr (hs.containsNode_iff.mpr ⟨n, hn⟩)
    simp [Option.filter_some, hmem]

/-- Clearing at once leads to the same outline as removing all edges, or all nodes, one by one. -/
structure ClearsAsRemovals (s : Session) : Prop where
  clearEdges_eq : (clearEdges s).2.outline = s.outline.withoutEdges
  removeEdge_eq : ∀ gone : List Edge, gone.Nodup → (∀ edge, edge ∈ gone ↔ s.containsEdge edge = true) →
    (callEach removeEdge gone s).1 = List.replicate gone.length (.ok true) ∧
      (callEach removeEdge gone s).2.outline = s.outline.withoutEdges
  clear_eq : (clear s).2.outline = s.outline.emptied
  removeNode_eq : ∀ gone : List Node, gone.Nodup → (∀ node, node ∈ gone ↔ s.containsNode node = true) →
    (callEach removeNode gone s).1 = List.replicate gone.length (.ok true) ∧
      (callEach removeNode gone s).2.outline = s.outline.emptied

theorem History.clear_eq_removals (h : History s edges) : s.ClearsAsRemovals := by
  obtain ⟨order, hs, _⟩ := h.recorded
  constructor
  case clearEdges_eq =>
    exact h.outline_of_removesAllEdges (h.performed s edges .clearEdges) hs.removesAllEdges_clearEdges
  case removeEdge_eq =>
    intro gone hnodup hall
    obtain ⟨hanswers, hedgesGone⟩ := hs.removesAllEdges_callEach hnodup hall
    obtain ⟨_, h'⟩ := History.callEach .removeEdge (fun _ _ => rfl) h gone
    exact ⟨hanswers, h.outline_of_removesAllEdges h' hedgesGone⟩
  case clear_eq => exact (h.performed s edges .clear).outline_of_removesAllNodes hs.removesAllNodes_clear
  case removeNode_eq =>
    intro gone hnodup hall
    obtain ⟨hanswers, hnodesGone⟩ := hs.removesAllNodes_callEach hnodup hall
    obtain ⟨_, h'⟩ := History.callEach .removeNode (fun _ _ => rfl) h gone
    exact ⟨hanswers, h'.outline_of_removesAllNodes hnodesGone⟩

theorem clear_eq_removals_twiceLooped : History twiceLooped [otherLoop, selfEdge] ∧
    twiceLooped.ClearsAsRemovals ∧ ∀ gone : List Edge, gone.Perm [otherLoop, selfEdge] →
      (callEach removeEdge gone twiceLooped).2.outline = (clearEdges twiceLooped).2.outline := by
  have hclears : twiceLooped.ClearsAsRemovals := history_twiceLooped.clear_eq_removals
  refine ⟨history_twiceLooped, hclears, fun gone hperm => ?_⟩
  obtain ⟨order, hrecorded⟩ := history_twiceLooped.recorded
  have hnodup : [otherLoop, selfEdge].Nodup := by decide
  have hremoved := hclears.removeEdge_eq gone (hperm.nodup_iff.mpr hnodup) fun edge =>
    hperm.mem_iff.trans (hrecorded.mem_iff edge)
  exact hremoved.2.trans hclears.clearEdges_eq.symm

end Session

end PropertyGraph
