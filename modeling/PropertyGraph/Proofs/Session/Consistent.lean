import PropertyGraph.Proofs.Session.Run
import PropertyGraph.Proofs.Views.Records
import PropertyGraph.Session.Elements

/-!
# Consistent sessions

What holds of a session between two calls. The store is sound, the catalog knows where its elements
are, and no view names what is not stored. Much of what a call does is quiet, which is to say that
nothing of this depends on it: versions and observers, what listeners hear, what is known about
handles that are at home elsewhere.
-/

namespace PropertyGraph.Session

variable {s s' : Session} {order : List Nat} {slot : Nat} {node : Node} {edge : Edge}

/-! ### The invariant -/

/-- The store is sound, its elements are at home in it, and its views are closed. -/
structure Consistent (s : Session) (order : List Nat) : Prop where
  sound : s.store.Sound order
  node_home : ∀ n node, s.store.node? n = some node →
    s.catalog.nodeHomes[node]? = some { store := s.store.token, slot := n }
  edge_home : ∀ i edge, s.store.edge? i = some edge →
    s.catalog.edgeHomes[edge]? = some { store := s.store.token, slot := i }
  views_valid : s.store.views.arena.Valid
  closed : ∀ slot r, s.store.views.arena.get? slot = some r → r.Closed s.store

namespace Consistent

theorem nodeSlot?_eq (h : s.Consistent order) (hnode : s.store.node? slot = some node) :
    s.nodeSlot? node = .ok (some slot) := by
  rw [nodeSlot?, h.node_home slot node hnode]
  simp only [if_pos trivial]
  rw [if_pos hnode]

theorem edgeSlot?_eq (h : s.Consistent order) (hedge : s.store.edge? slot = some edge) :
    s.edgeSlot? edge = .ok (some slot) := by
  rw [edgeSlot?, h.edge_home slot edge hedge]
  simp only [if_pos trivial]
  rw [if_pos hedge]

theorem node_unique (h : s.Consistent order) {i j : Nat} (hi : s.store.node? i = some node)
    (hj : s.store.node? j = some node) : i = j := by
  have hslot := h.nodeSlot?_eq hi
  rw [h.nodeSlot?_eq hj] at hslot
  cases hslot
  rfl

theorem edge_unique (h : s.Consistent order) {i j : Nat} (hi : s.store.edge? i = some edge)
    (hj : s.store.edge? j = some edge) : i = j := by
  have hslot := h.edgeSlot?_eq hi
  rw [h.edgeSlot?_eq hj] at hslot
  cases hslot
  rfl

end Consistent

theorem nodeSlot?_iff : s.nodeSlot? node = .ok (some slot) ↔
    s.catalog.nodeHomes[node]? = some ⟨s.store.token, slot⟩ ∧ s.store.node? slot = some node := by
  rw [nodeSlot?]
  constructor
  · intro h
    split at h
    · cases h
    · next home hhome =>
      split at h
      · next hstore =>
        split at h
        · next hnode =>
          cases h
          rw [hhome, ← hstore]
          exact ⟨rfl, hnode⟩
        · cases h
      · cases h
  · rintro ⟨hhome, hnode⟩
    rw [hhome]
    simp only [if_true]
    rw [if_pos hnode]

theorem edgeSlot?_iff : s.edgeSlot? edge = .ok (some slot) ↔
    s.catalog.edgeHomes[edge]? = some ⟨s.store.token, slot⟩ ∧ s.store.edge? slot = some edge := by
  rw [edgeSlot?]
  constructor
  · intro h
    split at h
    · cases h
    · next home hhome =>
      split at h
      · next hstore =>
        split at h
        · next hedge =>
          cases h
          rw [hhome, ← hstore]
          exact ⟨rfl, hedge⟩
        · cases h
      · cases h
  · rintro ⟨hhome, hedge⟩
    rw [hhome]
    simp only [if_true]
    rw [if_pos hedge]

theorem node?_of_nodeSlot? (h : s.nodeSlot? node = .ok (some slot)) :
    s.store.node? slot = some node := (nodeSlot?_iff.mp h).2

theorem edge?_of_edgeSlot? (h : s.edgeSlot? edge = .ok (some slot)) :
    s.store.edge? slot = some edge := (edgeSlot?_iff.mp h).2

theorem containsNode_iff_nodeSlot? :
    s.containsNode node = true ↔ ∃ slot, s.nodeSlot? node = .ok (some slot) := by
  rw [containsNode]
  cases s.nodeSlot? node with
  | error fault => simp
  | ok slot => cases slot <;> simp

theorem containsEdge_iff_edgeSlot? :
    s.containsEdge edge = true ↔ ∃ slot, s.edgeSlot? edge = .ok (some slot) := by
  rw [containsEdge]
  cases s.edgeSlot? edge with
  | error fault => simp
  | ok slot => cases slot <;> simp

theorem Consistent.containsNode_iff (h : s.Consistent order) :
    s.containsNode node = true ↔ ∃ n, s.store.node? n = some node := by
  rw [containsNode_iff_nodeSlot?]
  exact exists_congr fun n => ⟨node?_of_nodeSlot?, h.nodeSlot?_eq⟩

theorem Consistent.containsEdge_iff (h : s.Consistent order) :
    s.containsEdge edge = true ↔ ∃ i, s.store.edge? i = some edge := by
  rw [containsEdge_iff_edgeSlot?]
  exact exists_congr fun i => ⟨edge?_of_edgeSlot?, h.edgeSlot?_eq⟩

/-! ### Quiet changes -/

/-- Nothing changes that consistency depends on, and no element of this store loses its home. -/
structure Quiet (s s' : Session) : Prop where
  token : s'.store.token = s.store.token
  nodes : s'.store.nodes = s.store.nodes
  edges : s'.store.edges = s.store.edges
  labels : s'.store.labels = s.store.labels
  views : s'.store.views.arena = s.store.views.arena
  node_home : ∀ (node : Node) n, s.catalog.nodeHomes[node]? = some ⟨s.store.token, n⟩ →
    s'.catalog.nodeHomes[node]? = some ⟨s.store.token, n⟩
  edge_home : ∀ (edge : Edge) i, s.catalog.edgeHomes[edge]? = some ⟨s.store.token, i⟩ →
    s'.catalog.edgeHomes[edge]? = some ⟨s.store.token, i⟩

namespace Quiet

theorem refl (s : Session) : Quiet s s :=
  ⟨rfl, rfl, rfl, rfl, rfl, fun _ _ h => h, fun _ _ h => h⟩

theorem node?_eq (h : Quiet s s') (n : Nat) : s'.store.node? n = s.store.node? n := by
  rw [Store.node?, h.nodes, Store.node?]

theorem fixed?_eq (h : Quiet s s') (i : Nat) : s'.store.fixed? i = s.store.fixed? i := by
  rw [Store.fixed?, h.edges, Store.fixed?]

theorem edge?_eq (h : Quiet s s') (i : Nat) : s'.store.edge? i = s.store.edge? i := by
  rw [Store.edge?, h.edges, Store.edge?]

theorem consistent (h : Quiet s s') (hs : s.Consistent order) : s'.Consistent order where
  sound := hs.sound.of_eq h.nodes h.edges h.labels
  node_home := by
    intro n node hn
    rw [h.node?_eq] at hn
    rw [h.token]
    exact h.node_home node n (hs.node_home n node hn)
  edge_home := by
    intro i edge hi
    rw [h.edge?_eq] at hi
    rw [h.token]
    exact h.edge_home edge i (hs.edge_home i edge hi)
  views_valid := h.views ▸ hs.views_valid
  closed := by
    intro slot r hr
    rw [h.views] at hr
    refine (hs.closed slot r hr).mono (fun n hn => ?_) fun i x hx => ?_
    · rwa [h.node?_eq]
    · rwa [h.fixed?_eq]

end Quiet

theorem foldl_tell_eq (event : Event) (listeners : List Listener) (c : Catalog) :
    listeners.foldl (Catalog.tell event) c =
      { c with events := (listeners.foldl (Catalog.tell event) c).events } := by
  induction listeners generalizing c with
  | nil => rfl
  | cons listener rest ih =>
    have htell : c.tell event listener = { c with events := (c.tell event listener).events } := by
      rw [Catalog.tell]
      split <;> rfl
    rw [List.foldl_cons, ih, htell]

theorem foldl_destroyObserver_eq (observers : List Observer) (c : Catalog) :
    observers.foldl Catalog.destroyObserver c =
      { c with watches := (observers.foldl Catalog.destroyObserver c).watches } := by
  induction observers generalizing c with
  | nil => rfl
  | cons observer rest ih => exact ih (c.destroyObserver observer)

theorem homes_foldl_tell (event : Event) (listeners : List Listener) (c : Catalog) :
    (listeners.foldl (Catalog.tell event) c).nodeHomes = c.nodeHomes ∧
      (listeners.foldl (Catalog.tell event) c).edgeHomes = c.edgeHomes := by
  rw [foldl_tell_eq event listeners c]
  exact ⟨rfl, rfl⟩

theorem homes_foldl_destroyObserver (observers : List Observer) (c : Catalog) :
    (observers.foldl Catalog.destroyObserver c).nodeHomes = c.nodeHomes ∧
      (observers.foldl Catalog.destroyObserver c).edgeHomes = c.edgeHomes := by
  rw [foldl_destroyObserver_eq observers c]
  exact ⟨rfl, rfl⟩

theorem quiet_tell (s : Session) (event : Event) : Quiet s (s.tell event) := by
  obtain ⟨hnodes, hedges⟩ := homes_foldl_tell event s.store.listeners s.catalog
  refine ⟨rfl, rfl, rfl, rfl, rfl, fun node n hn => ?_, fun edge i hi => ?_⟩
  · exact (congrArg (·[node]?) hnodes).trans hn
  · exact (congrArg (·[edge]?) hedges).trans hi

theorem quiet_bumpIf (s : Session) (nodes edges : Bool) : Quiet s (s.bumpIf nodes edges) :=
  ⟨rfl, rfl, rfl, rfl, rfl, fun _ _ h => h, fun _ _ h => h⟩

end PropertyGraph.Session
