import PropertyGraph.Proofs.Labels
import PropertyGraph.Proofs.Store.Pairs

/-!
# What holds of every store in use

The store is described against the list of its edges, the one stored last in front: the list is a
ghost, and every part of the store that is redundant is determined by it. An operation that stores
an edge puts it in front of the list, one that removes an edge erases it, and all others leave the
list alone.
-/

namespace PropertyGraph

/-- The end of an edge that lies at the node of a chain. -/
def Phase.role : Phase → EndRole
  | .outgoing => .source
  | .incoming => .target

namespace Store

variable {s s' : Store} {slot reverse i j n label : Nat} {p q : Phase} {e f x : EdgeSlot}
  {order : List Nat} {paired : Bool} {node : Node}

theorem node?_eq_some {N : NodeSlot} (hN : s.nodes.get? n = some N) : s.node? n = some N.node := by
  rw [node?, hN, Option.map_some]

theorem edge?_eq_some (he : s.edges.get? i = some e) : s.edge? i = some e.edge := by
  rw [edge?, he, Option.map_some]

/-! ### What the parts of an operation leave alone -/

theorem hook_eq : s.hook slot e p =
    { s with
      nodes := { s.nodes with arena := (s.hook slot e p).nodes.arena }
      edges := { s.edges with arena := (s.hook slot e p).edges.arena } } := by
  dsimp only [Store.hook]
  cases (s.nodes.get? (e.ends.get p)).bind (·.head? p e.label) <;> rfl

theorem unhook_eq : s.unhook e p =
    { s with
      nodes := { s.nodes with arena := (s.unhook e p).nodes.arena }
      edges := { s.edges with arena := (s.unhook e p).edges.arena } } := by
  dsimp only [Store.unhook]
  cases e.prev? p <;> cases e.next? p <;> rfl

theorem reverse?_hook : (s.hook slot e p).reverse? f = s.reverse? f := by
  rw [hook_eq]
  rfl

theorem valid_hook (hnodes : s.nodes.arena.Valid) (hedges : s.edges.arena.Valid) :
    (s.hook slot e p).nodes.arena.Valid ∧ (s.hook slot e p).edges.arena.Valid := by
  dsimp only [Store.hook]
  cases (s.nodes.get? (e.ends.get p)).bind (·.head? p e.label) with
  | none => exact ⟨hnodes.modify, hedges.modify⟩
  | some first => exact ⟨hnodes.modify, hedges.modify.modify⟩

theorem valid_unhook (hnodes : s.nodes.arena.Valid) (hedges : s.edges.arena.Valid) :
    (s.unhook e p).nodes.arena.Valid ∧ (s.unhook e p).edges.arena.Valid := by
  dsimp only [Store.unhook]
  cases e.prev? p <;> cases e.next? p
  · exact ⟨hnodes.modify.modify, hedges⟩
  · exact ⟨hnodes.modify.modify, hedges.modify⟩
  · exact ⟨hnodes.modify, hedges.modify⟩
  · exact ⟨hnodes.modify, hedges.modify.modify⟩

theorem valid_setMutual (hnodes : s.nodes.arena.Valid) (hedges : s.edges.arena.Valid) :
    (s.setMutual slot reverse e paired).nodes.arena.Valid ∧
      (s.setMutual slot reverse e paired).edges.arena.Valid :=
  ⟨hnodes.modify.modify, hedges.modify.modify⟩

@[simp]
theorem node?_hook : (s.hook slot e p).node? n = s.node? n := by
  rw [node?, nodeGet?_hook, node?, Option.map_map]
  congr 1
  funext N
  simp only [Function.comp]
  split <;> rfl

@[simp]
theorem node?_unhook : (s.unhook e p).node? n = s.node? n := by
  rw [node?, nodeGet?_unhook, node?, Option.map_map]
  congr 1
  funext N
  simp only [Function.comp]
  split
  · split <;> rfl
  · rfl

theorem node?_setMutual : (s.setMutual slot reverse e paired).node? n = s.node? n := by
  change ((((s.modifyNode e.source (·.countMutual paired)).modifyNode e.target
    (·.countMutual paired)).nodes.get? n).map (·.node)) = _
  rw [nodeGet?_modifyNode, nodeGet?_modifyNode, node?, Option.map_map, Option.map_map]
  congr 1
  funext N
  simp only [Function.comp]
  split <;> split <;> rfl

/-! ### Where edges are anchored -/

/-- The list has exactly the edges that are stored, each once; the ends of an edge are stored, and
its label is registered. -/
structure Anchored (s : Store) (order : List Nat) : Prop where
  nodes_valid : s.nodes.arena.Valid
  edges_valid : s.edges.arena.Valid
  labels_sound : s.labels.Sound
  nodup : order.Nodup
  mem_iff : ∀ i, i ∈ order ↔ (s.plain? i).isSome
  node_of_end : ∀ i e p, s.plain? i = some e → s.node? (e.ends.get p) = some (e.edge.node p.role)
  label_of : ∀ i e, s.plain? i = some e → s.labels.labels.get? e.label = some e.edge.label

namespace Anchored

theorem hook (h : s.Anchored order) : (s.hook slot e p).Anchored order where
  nodes_valid := (valid_hook h.nodes_valid h.edges_valid).1
  edges_valid := (valid_hook h.nodes_valid h.edges_valid).2
  labels_sound := by
    rw [hook_eq]
    exact h.labels_sound
  nodup := h.nodup
  mem_iff := by simpa using h.mem_iff
  node_of_end := by simpa using h.node_of_end
  label_of := by
    have hlabels : (s.hook slot e p).labels = s.labels := by rw [hook_eq]
    simpa [hlabels] using h.label_of

theorem unhook (h : s.Anchored order) : (s.unhook e p).Anchored order where
  nodes_valid := (valid_unhook h.nodes_valid h.edges_valid).1
  edges_valid := (valid_unhook h.nodes_valid h.edges_valid).2
  labels_sound := by
    rw [unhook_eq]
    exact h.labels_sound
  nodup := h.nodup
  mem_iff := by simpa using h.mem_iff
  node_of_end := by simpa using h.node_of_end
  label_of := by
    have hlabels : (s.unhook e p).labels = s.labels := by rw [unhook_eq]
    simpa [hlabels] using h.label_of

theorem setMutual (h : s.Anchored order) : (s.setMutual slot reverse e paired).Anchored order where
  nodes_valid := (valid_setMutual h.nodes_valid h.edges_valid).1
  edges_valid := (valid_setMutual h.nodes_valid h.edges_valid).2
  labels_sound := h.labels_sound
  nodup := h.nodup
  mem_iff := by
    intro i
    rw [plain?_setMutual, Option.isSome_map]
    exact h.mem_iff i
  node_of_end := by
    intro i x p hx
    obtain ⟨y, b, hy, rfl⟩ := Mutual.exists_plain?_of_setMutual hx
    rw [node?_setMutual]
    exact h.node_of_end i y p hy
  label_of := by
    intro i x hx
    obtain ⟨y, b, hy, rfl⟩ := Mutual.exists_plain?_of_setMutual hx
    exact h.label_of i y hy

end Anchored

/-! ### The whole store -/

/-- The store is as its edges, listed with the one stored last in front, determine it. -/
structure Sound (s : Store) (order : List Nat) : Prop extends s.Anchored order where
  chained : ∀ p, s.Chained p order
  degreed : ∀ p, s.Degreed p order
  indexed : s.Indexed order
  paired : s.Mutual order

namespace Sound

theorem of_eq (h : s.Sound order) (hnodes : s'.nodes = s.nodes) (hedges : s'.edges = s.edges)
    (hlabels : s'.labels = s.labels) : s'.Sound order := by
  obtain ⟨token, config, nodes, edges, labels, views, version, observers, listeners, defaults⟩ := s'
  subst hnodes hedges hlabels
  exact ⟨⟨h.nodes_valid, h.edges_valid, h.labels_sound, h.nodup, h.mem_iff, h.node_of_end, h.label_of⟩,
    h.chained, h.degreed, h.indexed.congr (fun _ _ => rfl) rfl rfl rfl,
    h.paired.congr (fun _ _ => rfl) rfl fun _ N hN => ⟨N, hN, rfl⟩⟩

theorem plain?_eq_some (he : s.edges.get? i = some e) : s.plain? i = some e.unlinked := by
  rw [plain?, he, Option.map_some]

theorem exists_get?_of_plain? (hx : s.plain? i = some x) :
    ∃ e, s.edges.get? i = some e ∧ e.unlinked = x :=
  Option.map_eq_some_iff.mp hx

/-! ### Labels -/

theorem relabel (h : s.Sound order) {labels : LabelRegistry} (hlabels : labels.Sound)
    (hkeep : ∀ i e, s.plain? i = some e → labels.labels.get? e.label = s.labels.labels.get? e.label) :
    ({ s with labels } : Store).Sound order where
  nodes_valid := h.nodes_valid
  edges_valid := h.edges_valid
  labels_sound := hlabels
  nodup := h.nodup
  mem_iff := h.mem_iff
  node_of_end := h.node_of_end
  label_of := fun i e he => (hkeep i e he).trans (h.label_of i e he)
  chained := h.chained
  degreed := h.degreed
  indexed := h.indexed.congr (fun _ _ => rfl) rfl rfl rfl
  paired := h.paired.congr (fun _ _ => rfl) rfl fun _ N hN => ⟨N, hN, rfl⟩

/-- Registering a label, if there is room for it. No edge has the id of a label that is new. -/
theorem addLabel (h : s.Sound order) (label : String) :
    (∃ fault, s.labels.add label = (.error fault, s.labels)) ∨
    ∃ id labels, s.labels.add label = (.ok id, labels) ∧ labels.Sound ∧
      (∀ i x, s.plain? i = some x → labels.labels.get? x.label = s.labels.labels.get? x.label) ∧
      labels.labels.get? id = some label ∧
      (s.labels.idOf? label = some id ∨ ∀ i x, s.plain? i = some x → x.label ≠ id) := by
  rcases h.labels_sound.add_cases label with hrefused | ⟨id, hadd, hid⟩ |
    ⟨id, labels, hadd, hsound, _, hfree, hget⟩
  · exact .inl hrefused
  · exact .inr ⟨id, s.labels, hadd, h.labels_sound, fun _ _ _ => rfl, hid,
      .inl ((h.labels_sound.ids_iff label id).mpr hid)⟩
  · have hnew : ∀ i x, s.plain? i = some x → x.label ≠ id := by
      rintro i x hx rfl
      have hlabel := h.label_of i x hx
      rw [hfree] at hlabel
      cases hlabel
    refine .inr ⟨id, labels, hadd, hsound, fun i x hx => ?_, ?_, .inr hnew⟩
    · rw [hget, if_neg (hnew i x hx)]
    · rw [hget, if_pos rfl]

/-! ### Nodes -/

section Nodes

variable {nodes : NodeTable}

theorem ends_ne_of_free (h : s.Sound order) (hfree : s.nodes.get? n = none)
    (hx : s.plain? i = some x) : x.ends.get p ≠ n := by
  rintro rfl
  have hend := h.node_of_end i x p hx
  rw [node?, hfree] at hend
  cases hend

theorem filter_onChain_eq_nil (hbare : ∀ i x p, s.plain? i = some x → x.ends.get p ≠ n) :
    order.filter (s.onChain p n label) = [] := by
  refine List.filter_eq_nil_iff.mpr fun i _ => ?_
  rw [onChain_iff]
  rintro ⟨e, he, hend, _⟩
  exact hbare i _ p (plain?_eq_some he) hend

theorem tally_eq_zero {P : EdgeSlot → Bool}
    (hP : ∀ i x, s.plain? i = some x → P x = false) : s.tally order P = 0 := by
  refine List.countP_eq_zero.mpr fun i _ => ?_
  cases hx : s.plain? i with
  | none => simp
  | some x => simp [hP i x hx]

theorem addNode (h : s.Sound order) (hvalid : nodes.arena.Valid) (hfree : s.nodes.get? slot = none)
    (hget : ∀ n, nodes.get? n = if n = slot then some { node } else s.nodes.get? n) :
    ({ s with nodes } : Store).Sound order := by
  have hbare : ∀ i x p, s.plain? i = some x → x.ends.get p ≠ slot :=
    fun i x p hx => h.ends_ne_of_free hfree hx
  have hnode : ∀ n N, nodes.get? n = some N →
      n = slot ∧ N = { node } ∨ s.nodes.get? n = some N := by
    intro n N hN
    rw [hget] at hN
    split at hN
    · next heq => exact .inl ⟨heq, (Option.some.inj hN).symm⟩
    · exact .inr hN
  constructor
  case toAnchored =>
    refine ⟨hvalid, h.edges_valid, h.labels_sound, h.nodup, h.mem_iff, fun i x p hx => ?_, h.label_of⟩
    rw [node?]
    change (nodes.get? _).map _ = _
    rw [hget, if_neg (hbare i x p hx)]
    exact h.node_of_end i x p hx
  case chained =>
    intro p n N label hN
    change Linked (s.link? p) none (N.head? p label) (order.filter (s.onChain p n label))
    rcases hnode n N hN with ⟨rfl, rfl⟩ | hN
    · rw [filter_onChain_eq_nil hbare]
      cases p <;> rfl
    · exact h.chained p n N label hN
  case degreed =>
    intro p n N hN
    change N.degrees.get p = s.tally order _
    rcases hnode n N hN with ⟨rfl, rfl⟩ | hN
    · rw [tally_eq_zero (P := (·.endsAt p n)) fun i x hx => beq_false_of_ne (hbare i x p hx)]
      cases p <;> rfl
    · exact h.degreed p n N hN
  case indexed => exact h.indexed.congr (fun _ _ => rfl) rfl rfl rfl
  case paired =>
    refine ⟨h.paired.directed, h.paired.isMutual_iff, fun n N hN => ?_, h.paired.mutualCount⟩
    change N.mutualDegree = s.tally order _
    rcases hnode n N hN with ⟨rfl, rfl⟩ | hN
    · have hzero : ∀ i x, s.plain? i = some x → x.isMutualFrom n = false := by
        intro i x hx
        have hne : x.source ≠ n := hbare i x .outgoing hx
        rw [EdgeSlot.isMutualFrom, beq_false_of_ne hne, Bool.and_false]
      rw [tally_eq_zero hzero]
    · exact h.paired.mutualDegree n N hN

theorem removeNode (h : s.Sound order) (hvalid : nodes.arena.Valid)
    (hbare : ∀ i x p, s.plain? i = some x → x.ends.get p ≠ slot)
    (hget : ∀ n, nodes.get? n = if n = slot then none else s.nodes.get? n) :
    ({ s with nodes } : Store).Sound order := by
  have hback : ∀ n N, nodes.get? n = some N → s.nodes.get? n = some N := by
    intro n N hN
    rw [hget] at hN
    split at hN
    · cases hN
    · exact hN
  constructor
  case toAnchored =>
    refine ⟨hvalid, h.edges_valid, h.labels_sound, h.nodup, h.mem_iff, fun i x p hx => ?_, h.label_of⟩
    rw [node?]
    change (nodes.get? _).map _ = _
    rw [hget, if_neg (hbare i x p hx)]
    exact h.node_of_end i x p hx
  case chained => exact fun p n N label hN => h.chained p n N label (hback n N hN)
  case degreed => exact fun p n N hN => h.degreed p n N (hback n N hN)
  case indexed => exact h.indexed.congr (fun _ _ => rfl) rfl rfl rfl
  case paired => exact h.paired.congr (fun _ _ => rfl) rfl fun n N hN => ⟨N, hback n N hN, rfl⟩

end Nodes

end Sound

end Store

end PropertyGraph
