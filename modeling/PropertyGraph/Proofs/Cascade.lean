import PropertyGraph.Proofs.Atomicity
import PropertyGraph.Proofs.Session.Homes
import PropertyGraph.Proofs.Walks.Folded

/-!
# What goes with a node

A node that is removed takes the edges at it along, each of them once, and nothing else. The edges
are read off the chains before the first of them is removed, and every removal rewires the chains;
what a removal leaves behind is therefore said in terms that no chain enters: what the slots hold,
where ids and handles lead, what the views show, and what was counted.
-/

namespace PropertyGraph

/-! ### Groups -/

namespace GroupForest

variable {α : Type} [BEq α] [LawfulBEq α] [DecidableEq α] [Hashable α] {f f' : GroupForest α}
  {node : α}

/-- The node is in no group and has no children, its children are roots, and nothing else changes:
only a group that has lost all its children is a group no longer. -/
structure RemovesFromTree (node : α) (f f' : GroupForest α) : Prop where
  parent?_eq : ∀ x, f'.parent? x = if x = node ∨ f.parent? x = some node then none else f.parent? x
  children_eq : ∀ x, f'.children x = if x = node then [] else (f.children x).filter (· ≠ node)
  isGroup_iff : ∀ x, f'.isGroup x = true ↔ f'.children x ≠ []
  isCollapsed_eq : ∀ x, f'.isCollapsed x = (f'.isGroup x && f.isCollapsed x)

omit [DecidableEq α] in
theorem children_remove (x : α) :
    (f.remove node).children x = if x == node then [] else (f.detach node).children x := by
  have herase : ∀ (members : Std.HashMap α (List α)), (members.erase node).getD x [] =
      if x == node then [] else members.getD x [] := by
    intro members
    rw [Std.HashMap.getD_erase, BEq.comm]
  unfold remove
  simp only
  cases hnode : (f.detach node).members[node]? with
  | none =>
    by_cases hx : x = node
    · subst hx
      rw [beq_self_eq_true, if_pos rfl]
      change (f.detach x).members.getD x [] = []
      rw [Std.HashMap.getD_eq_getD_getElem?, hnode, Option.getD_none]
    · rw [beq_false_of_ne hx]
      rfl
  | some children => exact herase (f.detach node).members

theorem Valid.removesFromTree_remove (h : f.Valid) (node : α) :
    RemovesFromTree node f (f.remove node) := by
  have hvalid := h.remove node
  have hchildren : ∀ x, (f.remove node).children x =
      if x = node then [] else (f.children x).filter (· ≠ node) := by
    intro x
    rw [children_remove]
    by_cases hx : x = node
    · rw [if_pos hx, if_pos (beq_iff_eq.mpr hx)]
    · rw [if_neg hx, beq_false_of_ne hx, if_neg Bool.false_ne_true, h.children_detach_eq]
      refine List.filter_congr fun y _ => ?_
      rw [Bool.eq_iff_iff, bne_iff_ne, decide_eq_true_iff]
  refine ⟨fun x => ?_, hchildren, hvalid.isGroup_iff, fun x => ?_⟩
  · rw [h.parent?_remove]
    refine if_congr ?_ rfl rfl
    rw [Bool.or_eq_true, beq_iff_eq, List.contains_iff_mem, h.mem_children_iff]
  · cases hgroup : (f.remove node).isGroup x with
    | false =>
      rw [Bool.false_and, Bool.eq_false_iff]
      intro hcollapsed
      rw [hvalid.isGroup_of_collapsed x hcollapsed] at hgroup
      cases hgroup
    | true =>
      obtain ⟨y, hy⟩ := List.exists_mem_of_ne_nil _ ((hvalid.isGroup_iff x).mp hgroup)
      rw [hchildren] at hy
      split at hy
      · cases hy
      · next hne =>
        obtain ⟨hchild, hother⟩ := List.mem_filter.mp hy
        rw [Bool.true_and]
        exact h.isCollapsed_remove hne ((h.mem_children_iff x y).mp hchild) (of_decide_eq_true hother)

end GroupForest

def Edge.touches (edge : Edge) (node : Node) : Bool := edge.source = node ∨ edge.target = node

/-- A view without a node, which is in no group of it, and without some edges. -/
structure ViewRecord.Forgets (slot : Nat) (lost : Nat → Bool) (r r' : ViewRecord) : Prop where
  nodes : ∀ n, r'.nodes.contains n = (r.nodes.contains n && n ≠ slot)
  edges : ∀ i, r'.edges.contains i = (r.edges.contains i && !lost i)
  groups : Option.Rel (GroupForest.RemovesFromTree slot) r.groups r'.groups

theorem ViewRecord.forgets_forgetNode {r r' : ViewRecord} {lost : Nat → Bool}
    (hvalid : ∀ f, r.groups = some f → f.Valid) (hnodes : r'.nodes = r.nodes)
    (hgroups : r'.groups = r.groups)
    (hedges : ∀ i, r'.edges.contains i = (r.edges.contains i && !lost i)) (slot : Nat) :
    r.Forgets slot lost (r'.forgetNode slot) where
  nodes := by
    intro n
    change (r'.nodes.erase slot).contains n = _
    rw [IdSet.contains_erase, hnodes, decide_not]
  edges := hedges
  groups := by
    change Option.Rel _ _ (r'.groups.map (·.remove slot))
    rw [hgroups]
    cases hforest : r.groups with
    | none => exact .none
    | some f => exact .some ((hvalid f hforest).removesFromTree_remove slot)

namespace Session

open PropertyGraph.Action

variable {s s' s'' : Session} {order : List Nat} {edges gone gone' : List Edge} {node : Node}
  {edge : Edge} {slot i : Nat} {e : EdgeSlot}

/-! ### Edges go -/

/-- Some edges left and nothing else did: they are in no slot, unbound, out of the index and out of
the views, and each of them was counted. -/
structure LosesEdges (gone : List Edge) (s s' : Session) : Prop where
  token_eq : s'.store.token = s.store.token
  node?_eq : ∀ n, s'.store.node? n = s.store.node? n
  edge?_eq : ∀ i, s'.store.edge? i = (s.store.edge? i).filter (· ∉ gone)
  node_ids : s'.store.nodes.ids = s.store.nodes.ids
  edge_ids : ∀ id, s'.store.edges.ids[id]? =
    if id ∈ gone.map Edge.id then none else s.store.edges.ids[id]?
  node_home : ∀ node : Node, s'.catalog.nodeHomes[node]? = s.catalog.nodeHomes[node]?
  edge_home : ∀ edge : Edge, s'.catalog.edgeHomes[edge]? =
    if edge ∈ gone then none else s.catalog.edgeHomes[edge]?
  records : ∀ v, Option.Rel (fun r r' => r'.nodes = r.nodes ∧ r'.groups = r.groups ∧
    ∀ i, r'.edges.contains i = (r.edges.contains i && (s.store.edge? i).all (· ∉ gone)))
      (s.store.views.arena.get? v) (s'.store.views.arena.get? v)
  version_eq : s'.store.version =
    { s.store.version with edge := s.store.version.edge + .ofNat gone.length }

namespace LosesEdges

theorem refl (s : Session) : LosesEdges [] s s where
  token_eq := rfl
  node?_eq := fun _ => rfl
  edge?_eq := fun i => by cases s.store.edge? i <;> simp [Option.filter_some]
  node_ids := rfl
  edge_ids := fun _ => rfl
  node_home := fun _ => rfl
  edge_home := fun _ => by simp
  records := by
    intro v
    cases s.store.views.arena.get? v with
    | none => exact .none
    | some r => exact .some ⟨rfl, rfl, fun i => by cases s.store.edge? i <;> simp⟩
  version_eq := by simp

theorem trans (h : LosesEdges gone s s') (h' : LosesEdges gone' s' s'') :
    LosesEdges (gone ++ gone') s s'' where
  token_eq := h'.token_eq.trans h.token_eq
  node?_eq := fun n => (h'.node?_eq n).trans (h.node?_eq n)
  edge?_eq := by
    intro i
    rw [h'.edge?_eq, h.edge?_eq, Option.filter_filter]
    congr 1
    funext edge
    simp [not_or]
  node_ids := h'.node_ids.trans h.node_ids
  edge_ids := by
    intro id
    rw [h'.edge_ids, h.edge_ids, List.map_append]
    by_cases hid : id ∈ gone'.map Edge.id <;> simp [hid]
  node_home := fun node => (h'.node_home node).trans (h.node_home node)
  edge_home := by
    intro edge
    rw [h'.edge_home, h.edge_home]
    by_cases hedge : edge ∈ gone' <;> simp [hedge]
  records := by
    intro v
    have hfirst := h.records v
    have hsecond := h'.records v
    generalize s.store.views.arena.get? v = record at hfirst ⊢
    generalize s'.store.views.arena.get? v = record' at hfirst hsecond
    generalize s''.store.views.arena.get? v = record'' at hsecond ⊢
    cases hfirst with
    | none =>
      cases hsecond
      exact .none
    | some hr =>
      obtain ⟨hnodes, hgroups, hedges⟩ := hr
      cases hsecond with
      | some hr' =>
        obtain ⟨hnodes', hgroups', hedges'⟩ := hr'
        refine .some ⟨hnodes'.trans hnodes, hgroups'.trans hgroups, fun i => ?_⟩
        rw [hedges', hedges, h.edge?_eq, Bool.and_assoc]
        congr 1
        cases s.store.edge? i with
        | none => rfl
        | some edge => by_cases hedge : edge ∈ gone <;> simp [hedge]
  version_eq := by
    rw [h'.version_eq, h.version_eq, List.length_append, Int32.ofNat_add, Int32.add_assoc]

end LosesEdges

theorem Consistent.losesEdges_removeEdge (hs : s.Consistent order)
    (hedge : s.store.edge? slot = some edge) :
    LosesEdges [edge] s (removeEdge edge s).2 := by
  obtain ⟨e, place, _, rfl, h⟩ := hs.exists_removeEdge_eq hedge
  obtain ⟨hnodes, hedges⟩ := homes_foldl_tell (.edgeRemoved e.edge place)
    (s.forgetEdge slot e).store.listeners (s.forgetEdge slot e).catalog
  have hother : ∀ i other, s.store.edge? i = some other → (i = slot ↔ other = e.edge) := by
    intro i other hi
    constructor
    · rintro rfl
      exact Option.some.inj (hi.symm.trans hedge)
    · rintro rfl
      exact hs.edge_unique hi hedge
  have hslots : ∀ i, s.store.edge? i = none → i ≠ slot := by
    rintro i hi rfl
    rw [hi] at hedge
    cases hedge
  rw [h]
  constructor
  case token_eq => exact Store.token_unlink
  case node?_eq => exact fun n => node?_forgetEdge
  case edge?_eq =>
    intro i
    change (s.forgetEdge slot e).store.edge? i = _
    rw [edge?_forgetEdge hs.sound]
    cases hi : s.store.edge? i with
    | none => simp
    | some other =>
      have hsame := hother i other hi
      rw [Option.filter_some]
      by_cases hslot : i = slot
      · simp [hslot, hsame.mp hslot]
      · simp [hslot, mt hsame.mpr hslot]
  case node_ids => exact Store.ids_unlink.1
  case edge_ids =>
    intro id
    change (s.store.unlink slot e).edges.ids[id]? = _
    rw [Store.ids_unlink.2.1, Std.HashMap.getElem?_erase]
    refine if_congr ?_ rfl rfl
    rw [beq_iff_eq, List.map_singleton, List.mem_singleton, eq_comm]
  case node_home =>
    intro node
    exact congrArg (·[node]?) hnodes
  case edge_home =>
    intro other
    refine (congrArg (·[other]?) hedges).trans ?_
    change (s.catalog.edgeHomes.erase e.edge)[other]? = _
    rw [Std.HashMap.getElem?_erase]
    refine if_congr ?_ rfl rfl
    rw [beq_iff_eq, List.mem_singleton, eq_comm]
  case records =>
    intro v
    change Option.Rel _ _ (((s.store.unlink slot e).views.arena.map (·.forgetEdge slot)).get? v)
    rw [Store.views_unlink, Arena.get?_map]
    cases s.store.views.arena.get? v with
    | none => exact .none
    | some r =>
      refine .some ⟨rfl, rfl, fun i => ?_⟩
      change (r.edges.erase slot).contains i = _
      rw [IdSet.contains_erase]
      cases hi : s.store.edge? i with
      | none => simp [hslots i hi]
      | some other => simp [hother i other hi]
  case version_eq =>
    change (s.store.unlink slot e).version.bumpIf false true = _
    rw [Store.unlink_eq]
    rfl

theorem Consistent.losesEdges_removeEach (hs : s.Consistent order) (hnodup : gone.Nodup)
    (hstored : ∀ edge ∈ gone, ∃ i, s.store.edge? i = some edge) :
    LosesEdges gone s (removeEach gone s).2 := by
  induction gone generalizing s order with
  | nil => exact .refl s
  | cons edge rest ih =>
    obtain ⟨hnew, hnodup⟩ := List.nodup_cons.mp hnodup
    obtain ⟨i, hi⟩ := hstored edge List.mem_cons_self
    obtain ⟨order', _, hs'⟩ := (loses_removeEdge edge s order hs).exists_sublist
    rw [removeEach_cons, removeEdge_of_stored hs hi]
    refine (hs.losesEdges_removeEdge hi).trans (ih hs' hnodup fun other hother => ?_)
    obtain ⟨j, hj⟩ := hstored other (List.mem_cons_of_mem edge hother)
    exact ⟨j, edge?_removeEdge_of_ne hs (by rintro rfl; exact hnew hother) hj⟩

/-! ### A node goes, and its edges with it -/

/-- From a session to that in which a node is removed: its slot is free, and so are those of the
edges at it; these elements are unbound, out of the indexes and out of the views, and the node is out
of the groups; each of them was counted; and nothing else has changed. -/
structure Cascades (node : Node) (slot : Nat) (s s' : Session) : Prop where
  node?_eq : ∀ n, s'.store.node? n = (s.store.node? n).filter (· ≠ node)
  edge?_eq : ∀ i, s'.store.edge? i = (s.store.edge? i).filter (!·.touches node)
  isMutual_eq : ∀ i e', s'.store.edges.get? i = some e' →
    ∃ e, s.store.edges.get? i = some e ∧ e'.isMutual = e.isMutual
  node_home : ∀ other : Node, s'.catalog.nodeHomes[other]? =
    if other = node then none else s.catalog.nodeHomes[other]?
  edge_home : ∀ edge : Edge, s'.catalog.edgeHomes[edge]? =
    if s.containsEdge edge = true ∧ edge.touches node = true then none
    else s.catalog.edgeHomes[edge]?
  node_ids : ∀ id, s'.store.nodes.ids[id]? = if id = node.id then none else s.store.nodes.ids[id]?
  edge_ids : ∀ edge, s.containsEdge edge = true → edge.touches node = true →
    s'.store.edges.ids[edge.id]? = none
  other_ids : ∀ id, (∀ edge, s.containsEdge edge = true → edge.touches node = true → edge.id ≠ id) →
    s'.store.edges.ids[id]? = s.store.edges.ids[id]?
  records : ∀ v, Option.Rel (ViewRecord.Forgets slot fun i => (s.store.edge? i).any (·.touches node))
    (s.store.views.arena.get? v) (s'.store.views.arena.get? v)
  node_version : s'.store.version.node = s.store.version.node + 1
  edge_version : ∃ k : Nat, s'.store.version.edge = s.store.version.edge + .ofNat k ∧
    (k : ℕ∞) = {edge | s.containsEdge edge = true ∧ edge.touches node = true}.encard

theorem Consistent.mem_incident_iff (hs : s.Consistent order) {N : NodeSlot}
    (hN : s.store.nodes.get? slot = some N) : i ∈ s.store.incident N ↔
      ∃ edge, s.store.edge? i = some edge ∧ edge.touches N.node = true := by
  have hnode : s.store.node? slot = some N.node := Store.node?_eq_some hN
  have htouches : ∀ {e}, s.store.edges.get? i = some e →
      (e.edge.touches N.node = true ↔ e.source = slot ∨ e.target = slot) := by
    intro e he
    have hplain := Store.Sound.plain?_eq_some he
    have hsource : e.unlinked.endsAt .outgoing slot = true ↔ e.edge.source = N.node :=
      hs.endsAt_iff hnode hplain
    have htarget : e.unlinked.endsAt .incoming slot = true ↔ e.edge.target = N.node :=
      hs.endsAt_iff hnode hplain
    rw [Edge.touches, decide_eq_true_iff, ← hsource, ← htarget]
    exact or_congr beq_iff_eq beq_iff_eq
  rw [Store.mem_incident hs.sound.chained hs.sound.nodup hs.sound.mem_iff_get? hN]
  constructor
  · rintro ⟨e, he, hends⟩
    exact ⟨e.edge, Store.edge?_eq_some he, (htouches he).mpr hends⟩
  · rintro ⟨edge, hedge, htouch⟩
    obtain ⟨e, he, rfl⟩ := Option.map_eq_some_iff.mp hedge
    exact ⟨e, he, (htouches he).mp htouch⟩

theorem Consistent.mem_incidentEdges_iff (hs : s.Consistent order)
    (hnode : s.store.node? slot = some node) : edge ∈ s.incidentEdges slot ↔
      s.containsEdge edge = true ∧ edge.touches node = true := by
  obtain ⟨N, hN, rfl⟩ := Option.map_eq_some_iff.mp hnode
  rw [incidentEdges, hN, hs.containsEdge_iff]
  simp only [List.mem_filterMap, hs.mem_incident_iff hN]
  constructor
  · rintro ⟨i, ⟨edge', hi, htouch⟩, hedge⟩
    rw [hi, Option.some.injEq] at hedge
    exact ⟨⟨i, hedge ▸ hi⟩, hedge ▸ htouch⟩
  · rintro ⟨⟨i, hi⟩, htouch⟩
    exact ⟨i, ⟨edge, hi, htouch⟩, hi⟩

theorem Consistent.losesEdges_incidentEdges (hs : s.Consistent order)
    (hnode : s.store.node? slot = some node) :
    LosesEdges (s.incidentEdges slot) s (removeEach (s.incidentEdges slot) s).2 := by
  obtain ⟨hnodup, hedges⟩ := incidentEdges_stored hs hnode
  exact hs.losesEdges_removeEach hnodup hedges

/-- Taking edges away that touch the node breaks no pair of edges that do not. -/
theorem isPaired_iff_of_losesEdges {order' : List Nat} (hs : s.Consistent order)
    (hs' : s'.Consistent order')
    (hedge? : ∀ i, s'.store.edge? i = (s.store.edge? i).filter (!·.touches node))
    (hkept : edge.touches node = false) : s'.IsPaired edge ↔ s.IsPaired edge := by
  have hthere : ∀ other : Edge, other.touches node = false →
      (s'.containsEdge other = true ↔ s.containsEdge other = true) := by
    intro other hother
    rw [hs'.containsEdge_iff, hs.containsEdge_iff]
    refine exists_congr fun i => ?_
    rw [hedge?, Option.filter_eq_some_iff, hother]
    simp
  refine and_congr_right fun _ => and_congr_right fun _ => exists_congr fun back => ?_
  refine and_congr_left fun ⟨_, hsource, htarget, _⟩ => hthere back ?_
  rw [Edge.touches, hsource, htarget]
  rwa [Edge.touches, decide_eq_false_iff_not, or_comm, ← decide_eq_false_iff_not] at hkept

theorem isMutual_eq_of_losesEdges {order' : List Nat} (hs : s.Consistent order)
    (hs' : s'.Consistent order')
    (hedge? : ∀ i, s'.store.edge? i = (s.store.edge? i).filter (!·.touches node)) {e' : EdgeSlot}
    (he' : s'.store.edges.get? i = some e') :
    ∃ e, s.store.edges.get? i = some e ∧ e'.isMutual = e.isMutual := by
  have hi' := Store.Sound.plain?_eq_some he'
  have hsame := hedge? i
  rw [Store.edge?_eq_some he', eq_comm, Option.filter_eq_some_iff] at hsame
  obtain ⟨hedge, hkept⟩ := hsame
  obtain ⟨e, he, hedge⟩ := Option.map_eq_some_iff.mp hedge
  refine ⟨e, he, ?_⟩
  rw [Bool.not_eq_true'] at hkept
  have hi := Store.Sound.plain?_eq_some he
  have hpaired : e'.isMutual = true ↔ e.isMutual = true := by
    refine (hs'.isMutual_iff_isPaired hi').trans (Iff.trans ?_ (hs.isMutual_iff_isPaired hi).symm)
    change _ ↔ s.IsPaired e.edge
    rw [hedge]
    exact isPaired_iff_of_losesEdges hs hs' hedge? hkept
  rwa [Bool.eq_iff_iff]

section Incident

variable (hs : s.Consistent order) (hnode : s.store.node? slot = some node)
include hs hnode

theorem mem_incidentEdges_iff_touches (hi : s.store.edge? i = some edge) :
    edge ∈ s.incidentEdges slot ↔ edge.touches node = true := by
  rw [hs.mem_incidentEdges_iff hnode, hs.containsEdge_iff]
  exact and_iff_right ⟨i, hi⟩

theorem edge?_removeEach_incidentEdges (i : Nat) :
    (removeEach (s.incidentEdges slot) s).2.store.edge? i =
      (s.store.edge? i).filter (!·.touches node) := by
  rw [(hs.losesEdges_incidentEdges hnode).edge?_eq]
  cases hi : s.store.edge? i with
  | none => rfl
  | some edge =>
    rw [Option.filter_some, Option.filter_some]
    refine if_congr ?_ rfl rfl
    rw [decide_eq_true_iff, mem_incidentEdges_iff_touches hs hnode hi, Bool.not_eq_true',
      Bool.not_eq_true]

theorem forgets_of_incidentEdges (v : Nat) :
    Option.Rel (ViewRecord.Forgets slot fun i => (s.store.edge? i).any (·.touches node))
      (s.store.views.arena.get? v)
      (((removeEach (s.incidentEdges slot) s).2.store.views.arena.get? v).map
        (·.forgetNode slot)) := by
  have hrecord := (hs.losesEdges_incidentEdges hnode).records v
  have hvalid := hs.closed v
  generalize s.store.views.arena.get? v = record at hrecord hvalid ⊢
  generalize (removeEach (s.incidentEdges slot) s).2.store.views.arena.get? v = record' at hrecord ⊢
  cases hrecord with
  | none => exact .none
  | @some r r' hr =>
    obtain ⟨hnodes, hgroups, hedges⟩ := hr
    refine .some (ViewRecord.forgets_forgetNode (hvalid r rfl).forest_valid hnodes hgroups
      (fun i => ?_) slot)
    rw [hedges]
    congr 1
    cases hi : s.store.edge? i with
    | none => rfl
    | some edge =>
      rw [Option.all_some, Option.any_some, Bool.eq_iff_iff, decide_eq_true_iff,
        mem_incidentEdges_iff_touches hs hnode hi, Bool.not_eq_true', Bool.not_eq_true]

theorem map_node_remove {order' : List Nat} (hs' : s'.Consistent order')
    (hsame : ∀ n, s'.store.node? n = s.store.node? n) (n : Nat) :
    ((s'.store.nodes.remove node slot).get? n).map (·.node) =
      (s.store.node? n).filter (· ≠ node) := by
  have hget : (s'.store.nodes.remove node slot).get? n =
      if n = slot then none else s'.store.nodes.get? n := hs'.sound.nodes_valid.get?_free
  rw [hget]
  by_cases hn : n = slot
  · rw [if_pos hn, hn, hnode]
    simp [Option.filter_some]
  · rw [if_neg hn]
    refine (hsame n).trans ?_
    cases hother : s.store.node? n with
    | none => rfl
    | some other =>
      have hne : other ≠ node := by
        rintro rfl
        exact hn (hs.node_unique hother hnode)
      simp [Option.filter_some, hne]

end Incident

theorem Consistent.cascades (hs : s.Consistent order) (hslot : s.nodeSlot? node = .ok (some slot)) :
    Cascades node slot s (removeNode node s).2 := by
  have hnode := node?_of_nodeSlot? hslot
  obtain ⟨place, hremoved⟩ := hs.removeNode_of_stored hslot
  obtain ⟨order', _, hs'⟩ := (loses_removeNode node s order hs).exists_sublist
  obtain ⟨order₁, _, hs₁⟩ := (loses_removeEach (s.incidentEdges slot) s order hs).exists_sublist
  have hedgesLost := hs.losesEdges_incidentEdges hnode
  have hmem : ∀ edge, edge ∈ s.incidentEdges slot ↔
      s.containsEdge edge = true ∧ edge.touches node = true := fun edge =>
    hs.mem_incidentEdges_iff hnode
  -- The chains that the list was read from are gone by now; what it says is said of the store before.
  have hedge? := edge?_removeEach_incidentEdges hs hnode
  have hrecords := forgets_of_incidentEdges hs hnode
  rw [hremoved] at hs' ⊢
  generalize (removeEach (s.incidentEdges slot) s).2 = s₁ at *
  obtain ⟨hnodeHomes, hedgeHomes⟩ := homes_foldl_tell (.nodeRemoved node place)
    (s₁.forgetNode slot node).store.listeners (s₁.forgetNode slot node).catalog
  constructor
  case node?_eq =>
    intro n
    change ((s₁.store.nodes.remove node slot).get? n).map (·.node) = _
    exact map_node_remove hs hnode hs₁ hedgesLost.node?_eq n
  case edge?_eq => exact hedge?
  case isMutual_eq => exact fun i e' he' => isMutual_eq_of_losesEdges hs hs' hedge? he'
  case node_home =>
    intro other
    refine (congrArg (·[other]?) hnodeHomes).trans ?_
    change (s₁.catalog.nodeHomes.erase node)[other]? = _
    rw [Std.HashMap.getElem?_erase, hedgesLost.node_home]
    refine if_congr ?_ rfl rfl
    rw [beq_iff_eq, eq_comm]
  case edge_home =>
    intro edge
    refine (congrArg (·[edge]?) hedgeHomes).trans ((hedgesLost.edge_home edge).trans ?_)
    exact if_congr (hmem edge) rfl rfl
  case node_ids =>
    intro id
    change (s₁.store.nodes.ids.erase node.id)[id]? = _
    rw [Std.HashMap.getElem?_erase, hedgesLost.node_ids]
    refine if_congr ?_ rfl rfl
    rw [beq_iff_eq, eq_comm]
  case edge_ids =>
    intro edge hthere htouches
    refine (hedgesLost.edge_ids edge.id).trans (if_pos ?_)
    exact List.mem_map_of_mem ((hmem edge).mpr ⟨hthere, htouches⟩)
  case other_ids =>
    intro id hfree
    refine (hedgesLost.edge_ids id).trans (if_neg fun hid => ?_)
    obtain ⟨edge, hedge, heq⟩ := List.mem_map.mp hid
    obtain ⟨hthere, htouches⟩ := (hmem edge).mp hedge
    exact hfree edge hthere htouches heq
  case records =>
    intro v
    change Option.Rel _ _ ((s₁.store.views.arena.map (·.forgetNode slot)).get? v)
    rw [Arena.get?_map]
    exact hrecords v
  case node_version =>
    change (s₁.store.version.bumpIf true false).node = _
    rw [hedgesLost.version_eq]
    rfl
  case edge_version =>
    refine ⟨(s.incidentEdges slot).length, ?_, ?_⟩
    · change (s₁.store.version.bumpIf true false).edge = _
      rw [hedgesLost.version_eq]
      rfl
    · obtain ⟨hnodup, _⟩ := incidentEdges_stored hs hnode
      simp only [length_eq_encard hnodup, hmem]

/-- Removing a stored node is never refused, and takes the node and the edges at it, and no more. -/
theorem History.removal_cascades (h : History s edges) (hthere : s.containsNode node = true) :
    (removeNode node s).1 = .ok true ∧
      ∃ slot, s.store.node? slot = some node ∧ Cascades node slot s (removeNode node s).2 := by
  obtain ⟨order, hs, _⟩ := h.recorded
  obtain ⟨slot, hslot⟩ := containsNode_iff_nodeSlot?.mp hthere
  obtain ⟨place, hremoved⟩ := hs.removeNode_of_stored hslot
  exact ⟨by rw [hremoved], slot, node?_of_nodeSlot? hslot, hs.cascades hslot⟩

theorem removal_cascades_sampleStore : sampleStore.containsNode nodeA = true ∧
    (removeNode nodeA sampleStore).1 = .ok true ∧ ∃ slot, sampleStore.store.node? slot = some nodeA ∧
      Cascades nodeA slot sampleStore (removeNode nodeA sampleStore).2 :=
  ⟨containsNode_sampleStore, history_sampleStore.removal_cascades containsNode_sampleStore⟩

end Session

end PropertyGraph
