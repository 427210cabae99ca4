import PropertyGraph.Proofs.Cascade
import PropertyGraph.Proofs.Reinsertion

/-!
# Several elements go

A removal rewires chains and clears flags of edges that stay, and that of a node takes edges along. None
of this stops another removal: what is stored can be removed in any order. What is left afterwards is
said of all removals together, and exactly the elements that have left are unbound.
-/

namespace PropertyGraph.Session

open PropertyGraph.Action

variable {s s' s'' : Session} {order : List Nat} {gone : List Edge} {evicted : List Node}
  {node : Node} {edge : Edge} {slot : Nat}

theorem countEach_of_callEach {α : Type} {call : α → Action Bool} {xs : List α}
    (hall : (callEach call xs s).1 = List.replicate xs.length (.ok true)) :
    countEach call xs s = (.ok xs.length, (callEach call xs s).2) := by
  induction xs generalizing s with
  | nil => rfl
  | cons x rest ih =>
    obtain ⟨hfirst, hrest⟩ := List.cons_eq_cons.mp hall
    have hcall : call x s = (.ok true, (call x s).2) := Prod.ext hfirst rfl
    rw [countEach, bind_apply, hcall]
    simp only [bind_apply, ih hrest]
    rfl

/-! ### What is stored -/

namespace Consistent

theorem mem_nodes (hs : s.Consistent order) :
    node ∈ s.store.nodes.nodes ↔ ∃ n, s.store.node? n = some node :=
  hs.sound.nodes_valid.toLaid.mem_map_values

theorem mem_edges (hs : s.Consistent order) :
    edge ∈ s.store.edges.edges ↔ ∃ i, s.store.edge? i = some edge :=
  hs.sound.edges_valid.toLaid.mem_map_values

theorem nodup_nodes (hs : s.Consistent order) : s.store.nodes.nodes.Nodup :=
  hs.sound.nodes_valid.toLaid.nodup_map_values fun _ _ _ hi hj => hs.node_unique hi hj

theorem nodup_edges (hs : s.Consistent order) : s.store.edges.edges.Nodup :=
  hs.sound.edges_valid.toLaid.nodup_map_values fun _ _ _ hi hj => hs.edge_unique hi hj

end Consistent

theorem Consistent.containsNode_end (hs : s.Consistent order) (hthere : s.containsEdge edge = true)
    (role : EndRole) : s.containsNode (edge.node role) = true := by
  obtain ⟨i, hi⟩ := hs.containsEdge_iff.mp hthere
  rw [Store.edge?_eq, Option.map_eq_some_iff] at hi
  obtain ⟨x, hx, rfl⟩ := hi
  rw [hs.containsNode_iff]
  cases role with
  | source => exact ⟨_, hs.sound.node?_of_fixed? hx .outgoing⟩
  | target => exact ⟨_, hs.sound.node?_of_fixed? hx .incoming⟩

/-! ### Who is unbound -/

/-- Nothing has come, and exactly what has left is unbound. -/
structure Unbinds (s s' : Session) : Prop where
  node_there : ∀ node, s'.containsNode node = true → s.containsNode node = true
  edge_there : ∀ edge, s'.containsEdge edge = true → s.containsEdge edge = true
  node_home : ∀ node : Node, s'.catalog.nodeHomes[node]? =
    if s.containsNode node = true ∧ s'.containsNode node = false then none
    else s.catalog.nodeHomes[node]?
  edge_home : ∀ edge : Edge, s'.catalog.edgeHomes[edge]? =
    if s.containsEdge edge = true ∧ s'.containsEdge edge = false then none
    else s.catalog.edgeHomes[edge]?

namespace Unbinds

theorem refl (s : Session) : Unbinds s s where
  node_there := fun _ => id
  edge_there := fun _ => id
  node_home := by simp
  edge_home := by simp

theorem home_trans {α : Type} {a b c : Bool} {home home' home'' : Option α} (hb : b = true → a = true)
    (hc : c = true → b = true) (h : home' = if a = true ∧ b = false then none else home)
    (h' : home'' = if b = true ∧ c = false then none else home') :
    home'' = if a = true ∧ c = false then none else home := by
  subst h h'
  cases a <;> cases b <;> cases c <;> simp_all

theorem trans (h : Unbinds s s') (h' : Unbinds s' s'') : Unbinds s s'' where
  node_there := fun node hnode => h.node_there node (h'.node_there node hnode)
  edge_there := fun edge hedge => h.edge_there edge (h'.edge_there edge hedge)
  node_home := fun node =>
    home_trans (h.node_there node) (h'.node_there node) (h.node_home node) (h'.node_home node)
  edge_home := fun edge =>
    home_trans (h.edge_there edge) (h'.edge_there edge) (h.edge_home edge) (h'.edge_home edge)

end Unbinds

theorem Consistent.containsNode_filter {order' : List Nat} {P : Node → Bool} (hs : s.Consistent order)
    (hs' : s'.Consistent order') (h : ∀ n, s'.store.node? n = (s.store.node? n).filter P) :
    s'.containsNode node = true ↔ s.containsNode node = true ∧ P node = true := by
  simp only [hs.containsNode_iff, hs'.containsNode_iff, h, Option.filter_eq_some_iff, exists_and_right]

theorem Consistent.containsEdge_filter {order' : List Nat} {P : Edge → Bool} (hs : s.Consistent order)
    (hs' : s'.Consistent order') (h : ∀ i, s'.store.edge? i = (s.store.edge? i).filter P) :
    s'.containsEdge edge = true ↔ s.containsEdge edge = true ∧ P edge = true := by
  simp only [hs.containsEdge_iff, hs'.containsEdge_iff, h, Option.filter_eq_some_iff, exists_and_right]

/-- It is enough to know what has left and who is unbound. -/
theorem unbinds_of_kept {order' : List Nat} {P : Node → Bool} {Q : Edge → Bool} (hs : s.Consistent order)
    (hs' : s'.Consistent order') (hnode? : ∀ n, s'.store.node? n = (s.store.node? n).filter P)
    (hedge? : ∀ i, s'.store.edge? i = (s.store.edge? i).filter Q)
    (hnodeHome : ∀ node : Node, s'.catalog.nodeHomes[node]? =
      if s.containsNode node = true ∧ P node = false then none else s.catalog.nodeHomes[node]?)
    (hedgeHome : ∀ edge : Edge, s'.catalog.edgeHomes[edge]? =
      if s.containsEdge edge = true ∧ Q edge = false then none else s.catalog.edgeHomes[edge]?) :
    Unbinds s s' where
  node_there := fun _ hthere => ((hs.containsNode_filter hs' hnode?).mp hthere).1
  edge_there := fun _ hthere => ((hs.containsEdge_filter hs' hedge?).mp hthere).1
  node_home := by
    intro node
    rw [hnodeHome]
    refine if_congr (and_congr_right fun hthere => ?_) rfl rfl
    rw [← Bool.not_eq_true, ← Bool.not_eq_true, hs.containsNode_filter hs' hnode?, and_iff_right hthere]
  edge_home := by
    intro edge
    rw [hedgeHome]
    refine if_congr (and_congr_right fun hthere => ?_) rfl rfl
    rw [← Bool.not_eq_true, ← Bool.not_eq_true, hs.containsEdge_filter hs' hedge?, and_iff_right hthere]

/-! ### Several edges -/

theorem Consistent.callEach_removeEdge (hs : s.Consistent order) (hnodup : gone.Nodup)
    (hstored : ∀ edge ∈ gone, ∃ i, s.store.edge? i = some edge) :
    callEach removeEdge gone s = (List.replicate gone.length (.ok true), (removeEach gone s).2) := by
  induction gone generalizing s order with
  | nil => rfl
  | cons edge rest ih =>
    obtain ⟨hnew, hnodup⟩ := List.nodup_cons.mp hnodup
    obtain ⟨i, hi⟩ := hstored edge List.mem_cons_self
    obtain ⟨order', _, hs'⟩ := (loses_removeEdge edge s order hs).exists_sublist
    have hdone := removeEdge_of_stored hs hi
    rw [callEach, removeEach_cons, hdone, ih hs' hnodup]
    · rfl
    · intro other hother
      obtain ⟨j, hj⟩ := hstored other (List.mem_cons_of_mem edge hother)
      exact ⟨j, edge?_removeEdge_of_ne hs (by rintro rfl; exact hnew hother) hj⟩

theorem Consistent.losesEdges_callEach (hs : s.Consistent order) (hnodup : gone.Nodup)
    (hstored : ∀ edge ∈ gone, ∃ i, s.store.edge? i = some edge) :
    (callEach removeEdge gone s).1 = List.replicate gone.length (.ok true) ∧
      LosesEdges gone s (callEach removeEdge gone s).2 := by
  rw [hs.callEach_removeEdge hnodup hstored]
  exact ⟨rfl, hs.losesEdges_removeEach hnodup hstored⟩

theorem LosesEdges.unbinds {order' : List Nat} (h : LosesEdges gone s s') (hs : s.Consistent order)
    (hs' : s'.Consistent order') (hstored : ∀ edge ∈ gone, s.containsEdge edge = true) :
    Unbinds s s' := by
  refine unbinds_of_kept (P := fun _ => true) hs hs' (fun n => ?_) h.edge?_eq (fun node => ?_)
    fun edge => ?_
  · rw [h.node?_eq]
    cases s.store.node? n <;> rfl
  · simp [h.node_home]
  · rw [h.edge_home]
    refine if_congr ?_ rfl rfl
    rw [decide_eq_false_iff_not, not_not]
    exact ⟨fun hmem => ⟨hstored edge hmem, hmem⟩, fun hmem => hmem.2⟩

/-! ### Several nodes -/

theorem Cascades.unbinds {order' : List Nat} (h : Cascades node slot s s') (hs : s.Consistent order)
    (hs' : s'.Consistent order') (hstored : s.containsNode node = true) : Unbinds s s' := by
  refine unbinds_of_kept hs hs' h.node?_eq h.edge?_eq (fun other => ?_) fun edge => ?_
  · rw [h.node_home]
    refine if_congr ?_ rfl rfl
    rw [decide_eq_false_iff_not, not_not]
    constructor
    · rintro rfl
      exact ⟨hstored, rfl⟩
    · exact fun hgone => hgone.2
  · simp only [h.edge_home, Bool.not_eq_false']

/-- Some nodes left, with the edges at them, and exactly what left is unbound. -/
structure Evicts (evicted : List Node) (s s' : Session) : Prop extends Unbinds s s' where
  node?_eq : ∀ n, s'.store.node? n = (s.store.node? n).filter (· ∉ evicted)
  edge?_eq : ∀ i, s'.store.edge? i =
    (s.store.edge? i).filter fun edge => edge.source ∉ evicted ∧ edge.target ∉ evicted

theorem Consistent.evicts_callEach (hs : s.Consistent order) (hnodup : evicted.Nodup)
    (hstored : ∀ node ∈ evicted, ∃ n, s.store.node? n = some node) :
    (callEach removeNode evicted s).1 = List.replicate evicted.length (.ok true) ∧
      Evicts evicted s (callEach removeNode evicted s).2 := by
  induction evicted generalizing s order with
  | nil =>
    refine ⟨rfl, ⟨.refl s, fun n => ?_, fun i => ?_⟩⟩
    · change s.store.node? n = _
      cases s.store.node? n <;> simp [Option.filter_some]
    · change s.store.edge? i = _
      cases s.store.edge? i <;> simp [Option.filter_some]
  | cons node rest ih =>
    obtain ⟨hnew, hnodup⟩ := List.nodup_cons.mp hnodup
    obtain ⟨n, hn⟩ := hstored node List.mem_cons_self
    have hslot := hs.nodeSlot?_eq hn
    obtain ⟨order', _, hs'⟩ := (loses_removeNode node s order hs).exists_sublist
    have hfirst := hs.cascades hslot
    have hunbinds := hfirst.unbinds hs hs' (containsNode_iff_nodeSlot?.mpr ⟨n, hslot⟩)
    obtain ⟨place, hremoved⟩ := hs.removeNode_of_stored hslot
    have hdone : (removeNode node s).1 = .ok true := by rw [hremoved]
    obtain ⟨hall, hrest⟩ := ih hs' hnodup fun other hother => by
      obtain ⟨m, hm⟩ := hstored other (List.mem_cons_of_mem node hother)
      have hne : other ≠ node := by
        rintro rfl
        exact hnew hother
      exact ⟨m, by simp [hfirst.node?_eq, hm, Option.filter_some, hne]⟩
    rw [callEach, hdone, hall]
    refine ⟨rfl, ⟨hunbinds.trans hrest.toUnbinds, fun m => ?_, fun i => ?_⟩⟩
    · rw [hrest.node?_eq, hfirst.node?_eq, Option.filter_filter]
      congr 1
      funext other
      simp [not_or]
    · rw [hrest.edge?_eq, hfirst.edge?_eq, Option.filter_filter]
      congr 1
      funext edge
      rw [Bool.eq_iff_iff]
      simp only [Edge.touches, List.mem_cons, not_or, Bool.and_eq_true, Bool.not_eq_true',
        decide_eq_true_iff, decide_eq_false_iff_not]
      tauto

end PropertyGraph.Session
